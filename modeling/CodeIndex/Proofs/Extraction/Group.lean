import CodeIndex.Proofs.Extraction.Reach

/-!
Declarations that group specifications, as `type ( … )` and `const ( … )` do. A group is one node,
of which one entity is reported, under the name of its first specification. The other
specifications are in its text only.
-/

namespace CodeIndex

namespace SyntaxNode

variable {source : String}

/-- The kind of the specifications that a declaration may group. -/
def specKind? : String → Option String
  | "type_declaration" => some "type_spec"
  | "const_declaration" => some "const_spec"
  | _ => none

/-- The name of the first specification of a kind, if it has one. -/
def firstName? (n : SyntaxNode) (spec source : String) : Option String :=
  (n.childOfKind? spec).bind (·.fieldText? "name" source)

theorem typeDeclared?_name (n : SyntaxNode) :
    (n.typeDeclared? source).map (·.2) = n.firstName? "type_spec" source := by
  unfold typeDeclared? firstName?
  cases n.childOfKind? "type_spec" with
  | none => rfl
  | some first => exact (Option.map_map _ _ _).trans (Option.map_id')

theorem constantDeclared?_name (n : SyntaxNode) :
    (n.constantDeclared? source).map (·.2) = n.firstName? "const_spec" source := by
  unfold constantDeclared? firstName?
  cases n.childOfKind? "const_spec" with
  | none => rfl
  | some first => exact (Option.map_map _ _ _).trans (Option.map_id')

theorem declared?_group {n : SyntaxNode} {spec : String} (h : specKind? n.kind = some spec)
    (scope : Option Scope) :
    (n.declared? source scope).map (·.2) = n.firstName? spec source := by
  unfold specKind? at h
  unfold declared?
  split at h
  · rename_i hkind
    cases h
    rw [hkind]
    exact n.typeDeclared?_name
  · rename_i hkind
    cases h
    rw [hkind]
    exact n.constantDeclared?_name
  · cases h

/-- The walk reports what it makes of each node that it reaches. -/
theorem mem_entities {tree n : SyntaxNode} {above : List SyntaxNode} (hplace : tree.Holds above n)
    (hreached : ∀ a ∈ above, a.isOpen source = true) {e : ExtractedEntity}
    (h : PlacedNode.entity? source ⟨n, above⟩ = some e) : e ∈ tree.entities source none := by
  rw [entities_eq_filterMap, List.mem_filterMap]
  refine ⟨⟨n, above⟩, (mem_preorder_iff tree _).mpr hplace, ?_⟩
  exact (if_pos (List.all_eq_true.mpr hreached)).trans h

/-- Every named specification of a group is reported under its name exactly if none has another name
than the first. -/
theorem group_reported_iff (source : String) {tree n : SyntaxNode} {above : List SyntaxNode}
    {spec : String} (hplace : tree.Holds above n) (hreached : ∀ a ∈ above, a.isOpen source = true)
    (hgroup : specKind? n.kind = some spec) :
    (∀ s ∈ n.children, s.kind = spec → ∀ name, s.fieldText? "name" source = some name →
      ∃ e ∈ tree.entities source none,
        PlacedNode.entity? source ⟨n, above⟩ = some e ∧ e.name = name) ↔
    ∀ s ∈ n.children, s.kind = spec → ∀ name, s.fieldText? "name" source = some name →
      n.firstName? spec source = some name := by
  -- one entity is made of a group, so that it can have one name only
  have hone (name : String) : (∃ e ∈ tree.entities source none,
      PlacedNode.entity? source ⟨n, above⟩ = some e ∧ e.name = name) ↔
      n.firstName? spec source = some name := by
    rw [← declared?_group hgroup (scopeAt source above), Option.map_eq_some_iff]
    constructor
    · rintro ⟨e, -, he, rfl⟩
      obtain ⟨d, hd, rfl⟩ := Option.map_eq_some_iff.mp he
      exact ⟨d, hd, rfl⟩
    · rintro ⟨d, hd, rfl⟩
      have he : PlacedNode.entity? source ⟨n, above⟩ =
          some (n.toEntity source d.1 d.2 (scopeAt source above)) :=
        Option.map_eq_some_iff.mpr ⟨d, hd, rfl⟩
      exact ⟨_, mem_entities hplace hreached he, he, rfl⟩
  simp only [hone]

end SyntaxNode

section TypeGroup

def groupSource : String := "package p\n\ntype (\n\tA struct\x7b\x7d\n\tB interface\x7b\x7d\n)\n"

def structSpec : SyntaxNode :=
  .part "type_spec" none (19, 29) (3, 3)
    [.part "type_identifier" "name" (19, 20) (3, 3) [],
      .part "struct_type" "type" (21, 29) (3, 3)
        [.part "struct" none (21, 27) (3, 3) [],
          .part "field_declaration_list" none (27, 29) (3, 3)
            [.part "\x7b" none (27, 28) (3, 3) [], .part "\x7d" none (28, 29) (3, 3) []]]]

def interfaceSpec : SyntaxNode :=
  .part "type_spec" none (31, 44) (4, 4)
    [.part "type_identifier" "name" (31, 32) (4, 4) [],
      .part "interface_type" "type" (33, 44) (4, 4)
        [.part "interface" none (33, 42) (4, 4) [], .part "\x7b" none (42, 43) (4, 4) [],
          .part "\x7d" none (43, 44) (4, 4) []]]

def typeGroup : SyntaxNode :=
  .part "type_declaration" none (11, 46) (2, 5)
    [.part "type" none (11, 15) (2, 2) [], .part "(" none (16, 17) (2, 2) [], structSpec,
      interfaceSpec, .part ")" none (45, 46) (5, 5) []]

def groupTree : SyntaxNode :=
  .part "source_file" none (0, 47) (0, 6)
    [.part "package_clause" none (0, 9) (0, 0)
      [.part "package" none (0, 7) (0, 0) [], .part "package_identifier" none (8, 9) (0, 0) []],
      typeGroup]

theorem typeGroup_reported_iff :
    groupTree.Holds [] typeGroup ∧ (∀ a ∈ [], SyntaxNode.isOpen groupSource a = true) ∧
    SyntaxNode.specKind? typeGroup.kind = some "type_spec" ∧
    ((∀ s ∈ typeGroup.children, s.kind = "type_spec" → ∀ name,
      s.fieldText? "name" groupSource = some name →
        ∃ e ∈ groupTree.entities groupSource none,
          PlacedNode.entity? groupSource ⟨typeGroup, []⟩ = some e ∧ e.name = name) ↔
    ∀ s ∈ typeGroup.children, s.kind = "type_spec" → ∀ name,
      s.fieldText? "name" groupSource = some name →
        typeGroup.firstName? "type_spec" groupSource = some name) := by
  have hplace : groupTree.Holds [] typeGroup := .child (.tail _ (.head _))
  have hreached : ∀ a ∈ [], SyntaxNode.isOpen groupSource a = true := nofun
  have hgroup : SyntaxNode.specKind? typeGroup.kind = some "type_spec" := rfl
  exact ⟨hplace, hreached, hgroup,
    SyntaxNode.group_reported_iff groupSource hplace hreached hgroup⟩

/-- The second type of the group has a name, and no entity has it. -/
theorem second_type_dropped :
    groupTree.Holds [] typeGroup ∧ typeGroup.kind = "type_declaration" ∧
    interfaceSpec ∈ typeGroup.children ∧ interfaceSpec.kind = "type_spec" ∧
    interfaceSpec.fieldText? "name" groupSource = some "B" ∧
    ∀ e ∈ groupTree.entities groupSource none, e.name ≠ "B" := by
  refine ⟨.child (.tail _ (.head _)), rfl, ?_, rfl, by decide +kernel, by decide +kernel⟩
  exact .tail _ (.tail _ (.tail _ (.head _)))

end TypeGroup

end CodeIndex
