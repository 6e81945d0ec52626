import CodeIndex.Extraction.Walk
import CodeIndex.Proofs.Extraction.Placed
import Mathlib.Data.List.Forall2

/-!
What the walk over a syntax tree reports, in terms of where the nodes stand: it reaches a node if it
is let through by all that lies above, and it reports what declares something where it is reached.
-/

namespace CodeIndex

def EntityKind.isContainer : EntityKind → Bool
  | .impl | .trait | .class_ | .module => true
  | _ => false

theorem EntityKind.scope?_isSome (kind : EntityKind) (name : String) :
    (kind.scope? name).isSome = kind.isContainer := by
  cases kind <;> rfl

namespace SyntaxNode

def functionKinds : List String :=
  ["function_item", "function_signature_item", "function_definition"]

variable (source : String)

def container? (n : SyntaxNode) : Option (EntityKind × String) :=
  (n.declared? source none).filter (·.1.isContainer)

/-- A container, or a wrapper that declares nothing itself. -/
def isOpen (n : SyntaxNode) : Bool :=
  (n.container? source).isSome || ((n.declared? source none).isNone && isWrapper n.kind)

end SyntaxNode

namespace PlacedNode

variable (source : String)

def isReached (v : PlacedNode) : Bool := v.above.all (·.isOpen source)

/-- A node is reached and declares something. -/
def isReported (v : PlacedNode) : Bool :=
  v.isReached source && (v.node.declared? source none).isSome

def container? (v : PlacedNode) : Option (EntityKind × String) :=
  v.above.findSome? (·.container? source)

/-- An entity tells what a node declares, in which container and on which lines, and holds its
text. -/
structure Reports (v : PlacedNode) (e : ExtractedEntity) : Prop where
  name : ∃ kind, v.node.declared? source none = some (kind, e.name) ∧
    (v.node.kind ∉ SyntaxNode.functionKinds → e.kind = kind)
  function : v.node.kind ∈ SyntaxNode.functionKinds →
    (e.kind = .method ↔ ∃ c, v.container? source = some c ∧
      (c.1 = .impl ∨ c.1 = .trait ∨ c.1 = .class_)) ∧ (e.kind ≠ .method → e.kind = .function)
  scope : e.scope = ((v.container? source).bind fun c => c.1.scope? c.2).map (·.label)
  text : v.node.Covers source e.text
  lines : e.span = ⟨v.node.info.startRow + 1, v.node.info.endRow + 1⟩

end PlacedNode

namespace SyntaxNode

variable {source : String}

def scopeAt (source : String) (above : List SyntaxNode) : Option Scope :=
  (above.findSome? (·.container? source)).bind fun c => c.1.scope? c.2

theorem namedKind?_scope (kind : String) (inMethods : Bool) :
    namedKind? kind inMethods =
      if kind ∈ functionKinds then some (if inMethods then .method else .function)
      else namedKind? kind false := by
  unfold namedKind?
  split <;> simp_all [functionKinds]

theorem declared?_function {n : SyntaxNode} (h : n.kind ∈ functionKinds) (scope : Option Scope) :
    n.declared? source scope = (n.fieldText? "name" source).map fun name =>
      (if (scope.map (·.holdsMethods)).getD false then .method else .function, name) := by
  unfold declared?
  simp only [functionKinds, List.mem_cons, List.not_mem_nil, or_false] at h
  rcases h with h | h | h <;> rw [h] <;> rfl

theorem declared?_other {n : SyntaxNode} (h : n.kind ∉ functionKinds) (scope : Option Scope) :
    n.declared? source scope = n.declared? source none := by
  have hkind (inMethods : Bool) : namedKind? n.kind inMethods = namedKind? n.kind false := by
    rw [namedKind?_scope, if_neg h]
  unfold declared?
  split
  · rfl
  · rfl
  · rfl
  · rfl
  · rw [hkind]
    rfl

/-- The scope changes neither whether a node declares something nor its name. -/
theorem declared?_name (n : SyntaxNode) (source : String) (scope : Option Scope) :
    (n.declared? source scope).map (·.2) = (n.declared? source none).map (·.2) := by
  by_cases h : n.kind ∈ functionKinds
  · rw [declared?_function h, declared?_function h, Option.map_map, Option.map_map]
    rfl
  · rw [declared?_other h]

theorem container?_eq (n : SyntaxNode) (source : String) (scope : Option Scope) :
    n.container? source = (n.declared? source scope).filter (·.1.isContainer) := by
  unfold container?
  by_cases h : n.kind ∈ functionKinds
  · have hnone (inMethods : Option Scope) :
        (n.declared? source inMethods).filter (·.1.isContainer) = none := by
      rw [declared?_function h, Option.filter_eq_none_iff]
      rintro d hd
      obtain ⟨name, -, rfl⟩ := Option.map_eq_some_iff.mp hd
      cases (inMethods.map (·.holdsMethods)).getD false <;> exact Bool.false_ne_true
    rw [hnone, hnone]
  · rw [declared?_other h scope]

theorem scopeAt_cons (child : SyntaxNode) (above : List SyntaxNode) :
    scopeAt source (child :: above) =
      match child.container? source with
      | some c => c.1.scope? c.2
      | none => scopeAt source above := by
  unfold scopeAt
  rw [List.findSome?_cons]
  cases child.container? source <;> rfl

end SyntaxNode

/-- What the walk makes of a node, in the scope around it. -/
def PlacedNode.entity? (source : String) (v : PlacedNode) : Option ExtractedEntity :=
  (v.node.declared? source (SyntaxNode.scopeAt source v.above)).map fun d =>
    v.node.toEntity source d.1 d.2 (SyntaxNode.scopeAt source v.above)

def PlacedNode.reported? (source : String) (v : PlacedNode) : Option ExtractedEntity :=
  if v.isReached source then v.entity? source else none

namespace SyntaxNode

variable {source : String}

/-- One step of the walk: what it reports of a node, what it reports below, and then the rest. -/
theorem entitiesOfList_cons (above : List SyntaxNode) (child : SyntaxNode)
    (rest : List SyntaxNode) :
    entitiesOfList source (scopeAt source above) (child :: rest) =
      (PlacedNode.entity? source ⟨child, above⟩).toList ++
        (if child.isOpen source then child.entities source (scopeAt source (child :: above))
          else []) ++ entitiesOfList source (scopeAt source above) rest := by
  -- the definitions look without a scope at what the walk looks at in one
  have hname := child.declared?_name source (scopeAt source above)
  have hcontainer := child.container?_eq source (scopeAt source above)
  rw [entitiesOfList]
  unfold PlacedNode.entity? isOpen
  dsimp only
  rw [scopeAt_cons]
  cases hdeclared : child.declared? source (scopeAt source above) with
  | none =>
    rw [hdeclared] at hname hcontainer
    have hnone : child.declared? source none = none := Option.map_eq_none_iff.mp hname.symm
    rw [hcontainer, hnone]
    simp
  | some d =>
    obtain ⟨kind, name⟩ := d
    rw [hdeclared] at hname hcontainer
    have hsome : (child.declared? source none).isNone = false := by
      cases hnone : child.declared? source none with
      | none =>
        rw [hnone] at hname
        cases hname
      | some d => rfl
    have hscope := kind.scope?_isSome name
    cases hinner : kind.scope? name with
    | none =>
      -- no container, so that nothing below is reported
      rw [hinner] at hscope
      have hclosed : child.container? source = none := by
        rw [hcontainer, Option.filter_eq_none_iff]
        rintro _ ⟨⟩
        exact ne_true_of_eq_false hscope.symm
      rw [hclosed, hsome]
      simp [hinner]
    | some inner =>
      -- a container, whose scope is that of what is below
      rw [hinner] at hscope
      have hown : child.container? source = some (kind, name) := by
        rw [hcontainer, Option.filter_eq_some_iff]
        exact ⟨rfl, hscope.symm⟩
      rw [hown]
      simp [hinner]

/-- Nothing is reported below a node that does not let the walk through. -/
theorem preorder_closed {child : SyntaxNode} (h : child.isOpen source = false)
    (above : List SyntaxNode) :
    (child.preorder (child :: above)).filterMap (·.reported? source) = [] := by
  rw [List.filterMap_eq_nil_iff]
  intro v hv
  obtain ⟨between, habove, -⟩ := holds_of_mem_preorder (child :: above) child v hv
  have hmem : child ∈ v.above := by
    rw [habove]
    exact List.mem_append_right _ List.mem_cons_self
  refine if_neg fun hreached => ?_
  have hopen := List.all_eq_true.mp hreached child hmem
  rw [h] at hopen
  cases hopen

mutual

-- the walk is the recursion of the tree, and carries that all nodes above let it through

/-- The walk reports of the nodes below a node, in pre-order, what it reports of each of them. -/
theorem entities_eq (source : String) (above : List SyntaxNode)
    (h : above.all (·.isOpen source) = true) :
    ∀ n : SyntaxNode, n.entities source (scopeAt source above) =
      (n.preorder above).filterMap (·.reported? source)
  | .node _ children => entitiesOfList_eq source above h children

theorem entitiesOfList_eq (source : String) (above : List SyntaxNode)
    (h : above.all (·.isOpen source) = true) :
    ∀ nodes : List SyntaxNode, entitiesOfList source (scopeAt source above) nodes =
      (preorderList above nodes).filterMap (·.reported? source)
  | [] => rfl
  | child :: rest => by
    have hown : PlacedNode.reported? source ⟨child, above⟩ =
        PlacedNode.entity? source ⟨child, above⟩ := if_pos h
    have hbelow : (if child.isOpen source then
        child.entities source (scopeAt source (child :: above)) else []) =
        (child.preorder (child :: above)).filterMap (·.reported? source) := by
      cases hopen : child.isOpen source with
      | true =>
        have hall : (child :: above).all (·.isOpen source) = true := by
          rw [List.all_cons, hopen, h]
          rfl
        rw [if_pos rfl, entities_eq source (child :: above) hall child]
      | false => rw [if_neg Bool.false_ne_true, preorder_closed hopen]
    rw [entitiesOfList_cons, entitiesOfList_eq source above h rest, hbelow, preorderList]
    rw [List.filterMap_cons, List.filterMap_append, hown]
    cases PlacedNode.entity? source ⟨child, above⟩ <;> simp

end

theorem entities_eq_filterMap (source : String) (tree : SyntaxNode) :
    tree.entities source none = (tree.preorder []).filterMap (·.reported? source) :=
  entities_eq source [] rfl tree

theorem scopeAt_holdsMethods (source : String) (above : List SyntaxNode) :
    ((scopeAt source above).map (·.holdsMethods)).getD false = true ↔
      ∃ c, above.findSome? (·.container? source) = some c ∧
        (c.1 = .impl ∨ c.1 = .trait ∨ c.1 = .class_) := by
  unfold scopeAt
  cases above.findSome? (·.container? source) with
  | none => simp
  | some c =>
    obtain ⟨kind, name⟩ := c
    cases kind <;> simp [EntityKind.scope?]

end SyntaxNode

namespace PlacedNode

variable {source : String} {v : PlacedNode}

theorem entity?_isSome (v : PlacedNode) (source : String) :
    (v.entity? source).isSome = (v.node.declared? source none).isSome := by
  have hname := congrArg Option.isSome
    (v.node.declared?_name source (SyntaxNode.scopeAt source v.above))
  rw [Option.isSome_map, Option.isSome_map] at hname
  unfold entity?
  rw [Option.isSome_map, hname]

theorem entity?_reports {e : ExtractedEntity} (hbounds : v.node.OnBoundaries source)
    (h : v.entity? source = some e) : v.Reports source e := by
  obtain ⟨text, htext⟩ := hbounds.covers
  unfold entity? at h
  obtain ⟨⟨kind, name⟩, hdeclared, rfl⟩ := Option.map_eq_some_iff.mp h
  have hmethods := SyntaxNode.scopeAt_holdsMethods source v.above
  refine ⟨?_, fun hfunction => ?_, rfl, ?_, rfl⟩
  · by_cases hfunction : v.node.kind ∈ SyntaxNode.functionKinds
    · have hname := v.node.declared?_name source (SyntaxNode.scopeAt source v.above)
      rw [hdeclared] at hname
      obtain ⟨⟨kind', _⟩, hnone, rfl⟩ := Option.map_eq_some_iff.mp hname.symm
      exact ⟨kind', hnone, fun hother => absurd hfunction hother⟩
    · rw [SyntaxNode.declared?_other hfunction] at hdeclared
      exact ⟨kind, hdeclared, fun _ => rfl⟩
  · rw [SyntaxNode.declared?_function hfunction] at hdeclared
    obtain ⟨_, -, heq⟩ := Option.map_eq_some_iff.mp hdeclared
    cases heq
    unfold container?
    rw [← hmethods]
    cases ((SyntaxNode.scopeAt source v.above).map (·.holdsMethods)).getD false <;>
      simp [SyntaxNode.toEntity]
  · show v.node.Covers source (v.node.textIn source)
    rwa [SyntaxNode.textIn_of_covers htext]

theorem forall₂_reports (nodes : List PlacedNode)
    (hbounds : ∀ v ∈ nodes, v.node.OnBoundaries source) :
    List.Forall₂ (Reports source) (nodes.filter (·.isReported source))
      (nodes.filterMap (·.reported? source)) := by
  induction nodes with
  | nil => exact .nil
  | cons v rest ih =>
    have hrest := ih fun w hw => hbounds w (List.mem_cons_of_mem _ hw)
    have hsome := v.entity?_isSome source
    rw [List.filter_cons, List.filterMap_cons]
    unfold isReported reported?
    cases hreached : v.isReached source with
    | false => exact hrest
    | true =>
      cases hentity : v.entity? source with
      | none =>
        rw [hentity] at hsome
        rw [← hsome]
        exact hrest
      | some e =>
        rw [hentity] at hsome
        rw [← hsome]
        exact .cons (entity?_reports (hbounds v List.mem_cons_self) hentity) hrest

end PlacedNode

/-- The entities of a tree are those of the nodes below the root that declare something and lie in
nothing but containers and wrappers, in pre-order and one for each, and each tells the truth of its
node: the scope is that of the nearest container, a function is a method exactly if that is there
and is no module, and text and lines are those of the node. -/
theorem entities_report (source : String) (tree : SyntaxNode)
    (hbounds : ∀ v ∈ tree.preorder [], v.node.OnBoundaries source) :
    List.Forall₂ (PlacedNode.Reports source)
      ((tree.preorder []).filter (·.isReported source)) (tree.entities source none) := by
  rw [SyntaxNode.entities_eq_filterMap]
  exact PlacedNode.forall₂_reports _ hbounds

section Nested

def nestedSource : String := "trait T \x7b mod é \x7b fn q() \x7b\x7d \x7d \x7d\n"

def nestedFunction : SyntaxNode :=
  .part "function_item" none (19, 28) (0, 0)
    [.part "fn" none (19, 21) (0, 0) [], .part "identifier" "name" (22, 23) (0, 0) [],
      .part "parameters" "parameters" (23, 25) (0, 0) [], .part "block" "body" (26, 28) (0, 0) []]

def nestedModule : SyntaxNode :=
  .part "mod_item" none (10, 30) (0, 0)
    [.part "mod" none (10, 13) (0, 0) [], .part "identifier" "name" (14, 16) (0, 0) [],
      .part "declaration_list" "body" (17, 30) (0, 0) [nestedFunction]]

def nestedTree : SyntaxNode :=
  .part "source_file" none (0, 33) (0, 1)
    [.part "trait_item" none (0, 32) (0, 0)
      [.part "trait" none (0, 5) (0, 0) [], .part "type_identifier" "name" (6, 7) (0, 0) [],
        .part "declaration_list" "body" (8, 32) (0, 0) [nestedModule]]]

/-- The module is what the function is in, so that it is no method. -/
theorem nested_report :
    (∀ v ∈ nestedTree.preorder [], v.node.OnBoundaries nestedSource) ∧
    List.Forall₂ (PlacedNode.Reports nestedSource)
      ((nestedTree.preorder []).filter (·.isReported nestedSource))
      (nestedTree.entities nestedSource none) ∧
    (nestedTree.entities nestedSource none).map (fun e => (e.kind, e.name, e.scope)) =
      [(.trait, "T", none), (.module, "é", some "trait T"), (.function, "q", some "mod é")] := by
  have hbounds : ∀ v ∈ nestedTree.preorder [], v.node.OnBoundaries nestedSource := by
    decide +kernel
  exact ⟨hbounds, entities_report nestedSource nestedTree hbounds, by decide +kernel⟩

end Nested

end CodeIndex
