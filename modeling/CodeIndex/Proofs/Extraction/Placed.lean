import CodeIndex.Extraction.Tree

/-!
Where the nodes of a syntax tree stand. The nodes below the root are listed in pre-order, each with
the nodes between it and the root: this tells two nodes apart that are equal but stand in different
places. The bytes of a node, if they begin and end between characters, are those of its text.
-/

namespace CodeIndex

/-- A node of a tree with the nodes between it and the root, the nearest first. -/
structure PlacedNode where
  node : SyntaxNode
  above : List SyntaxNode

mutual

/-- The nodes below a node in pre-order. -/
def SyntaxNode.preorder (above : List SyntaxNode) : SyntaxNode → List PlacedNode
  | .node _ children => SyntaxNode.preorderList above children

def SyntaxNode.preorderList (above : List SyntaxNode) : List SyntaxNode → List PlacedNode
  | [] => []
  | child :: rest =>
    ⟨child, above⟩ ::
      (SyntaxNode.preorder (child :: above) child ++ SyntaxNode.preorderList above rest)

end

/-- A node is below another, with these nodes between them, the nearest first. -/
inductive SyntaxNode.Holds : SyntaxNode → List SyntaxNode → SyntaxNode → Prop where
  | child {root n : SyntaxNode} (h : n ∈ root.children) : Holds root [] n
  | deeper {root child n : SyntaxNode} {between : List SyntaxNode} (h : child ∈ root.children)
      (next : Holds child between n) : Holds root (between ++ [child]) n

namespace SyntaxNode

mutual

/-- Every node that is listed is below the root, with the nodes that are listed with it between
them. -/
theorem holds_of_mem_preorder (above : List SyntaxNode) :
    ∀ n : SyntaxNode, ∀ v ∈ n.preorder above,
      ∃ between, v.above = between ++ above ∧ n.Holds between v.node
  | .node _ children, v, h => by
    obtain ⟨child, hchild, h⟩ := holds_of_mem_preorderList above children v h
    rcases h with rfl | ⟨between, habove, hholds⟩
    · exact ⟨[], rfl, .child hchild⟩
    · exact ⟨between ++ [child], by rw [habove, List.append_assoc]; rfl, .deeper hchild hholds⟩

theorem holds_of_mem_preorderList (above : List SyntaxNode) :
    ∀ nodes : List SyntaxNode, ∀ v ∈ preorderList above nodes, ∃ child ∈ nodes,
      v = ⟨child, above⟩ ∨ ∃ between, v.above = between ++ child :: above ∧
        child.Holds between v.node
  | [], _, h => absurd h List.not_mem_nil
  | child :: rest, v, h => by
    rcases List.mem_cons.mp h with rfl | h
    · exact ⟨child, List.mem_cons_self, .inl rfl⟩
    · rcases List.mem_append.mp h with h | h
      · exact ⟨child, List.mem_cons_self,
          .inr (holds_of_mem_preorder (child :: above) child v h)⟩
      · obtain ⟨later, hlater, h⟩ := holds_of_mem_preorderList above rest v h
        exact ⟨later, List.mem_cons_of_mem _ hlater, h⟩

end

theorem mem_preorderList {above nodes : List SyntaxNode} {child : SyntaxNode} (h : child ∈ nodes) :
    ⟨child, above⟩ ∈ preorderList above nodes ∧
      ∀ v ∈ child.preorder (child :: above), v ∈ preorderList above nodes := by
  induction nodes with
  | nil => cases h
  | cons first rest ih =>
    rw [preorderList]
    rcases List.mem_cons.mp h with rfl | h
    · exact ⟨List.mem_cons_self, fun v hv => List.mem_cons_of_mem _ (List.mem_append_left _ hv)⟩
    · have hlater {v : PlacedNode} (hv : v ∈ preorderList above rest) :=
        List.mem_cons_of_mem (⟨first, above⟩ : PlacedNode)
          (List.mem_append_right (first.preorder (first :: above)) hv)
      exact ⟨hlater (ih h).1, fun v hv => hlater ((ih h).2 v hv)⟩

/-- Every node below the root is listed, with the nodes between them. -/
theorem Holds.mem_preorder {root n : SyntaxNode} {between : List SyntaxNode}
    (h : root.Holds between n) (above : List SyntaxNode) :
    ⟨n, between ++ above⟩ ∈ root.preorder above := by
  induction h generalizing above with
  | @child root n h =>
    cases root
    exact (mem_preorderList h).1
  | @deeper root child n between h next ih =>
    cases root
    rw [List.append_assoc]
    exact (mem_preorderList h).2 _ (ih (child :: above))

/-- The nodes that are listed are those below the root, each with the nodes between them. -/
theorem mem_preorder_iff (root : SyntaxNode) (v : PlacedNode) :
    v ∈ root.preorder [] ↔ root.Holds v.above v.node := by
  constructor
  · intro h
    obtain ⟨between, habove, hholds⟩ := holds_of_mem_preorder [] root v h
    rw [List.append_nil] at habove
    rwa [habove]
  · intro h
    have hmem := h.mem_preorder []
    rwa [List.append_nil] at hmem

/-- The bytes of a node begin and end on boundaries between the characters of a text. -/
def OnBoundaries (n : SyntaxNode) (source : String) : Prop :=
  String.Pos.Raw.IsValid source ⟨n.info.startByte⟩ ∧
    String.Pos.Raw.IsValid source ⟨n.info.endByte⟩ ∧ n.info.startByte ≤ n.info.endByte

instance (n : SyntaxNode) (source : String) : Decidable (n.OnBoundaries source) :=
  inferInstanceAs (Decidable (_ ∧ _ ∧ _))

def Covers (n : SyntaxNode) (source text : String) : Prop :=
  ∃ before after : String, source = before ++ text ++ after ∧
    n.info.startByte = before.utf8ByteSize ∧
    n.info.endByte = before.utf8ByteSize + text.utf8ByteSize

variable {source : String}

theorem OnBoundaries.covers {n : SyntaxNode} (h : n.OnBoundaries source) :
    ∃ text, n.Covers source text := by
  obtain ⟨hstart, hend, hle⟩ := h
  obtain ⟨before, rest, hsource, hbefore⟩ := String.Pos.Raw.isValid_iff_exists_append.mp hstart
  obtain ⟨front, after, hsource', hfront⟩ := String.Pos.Raw.isValid_iff_exists_append.mp hend
  have hbefore : n.info.startByte = before.utf8ByteSize := congrArg (·.byteIdx) hbefore
  have hfront : n.info.endByte = front.utf8ByteSize := congrArg (·.byteIdx) hfront
  have hsame : before.toList ++ rest.toList = front.toList ++ after.toList := by
    rw [← String.toList_append, ← String.toList_append, ← hsource, ← hsource']
  -- the earlier boundary splits what stands before the later one
  obtain ⟨text, htext⟩ : ∃ text : String, front = before ++ text := by
    rcases List.append_eq_append_iff.mp hsame with ⟨part, hpart, -⟩ | ⟨part, hpart, -⟩
    · refine ⟨String.ofList part, String.toList_inj.mp ?_⟩
      rw [String.toList_append, String.toList_ofList, hpart]
    · have hpart : before = front ++ String.ofList part := by
        rw [← String.toList_inj, String.toList_append, String.toList_ofList, hpart]
      have hsize := congrArg String.utf8ByteSize hpart
      rw [String.utf8ByteSize_append] at hsize
      have hempty : String.ofList part = "" := String.utf8ByteSize_eq_zero_iff.mp (by omega)
      refine ⟨"", ?_⟩
      rw [hpart, hempty, String.append_empty, String.append_empty]
  refine ⟨text, before, after, by rw [hsource', htext], hbefore, ?_⟩
  rw [hfront, htext, String.utf8ByteSize_append]

theorem textIn_of_covers {n : SyntaxNode} {text : String} (h : n.Covers source text) :
    n.textIn source = text := by
  obtain ⟨before, after, rfl, hstart, hend⟩ := h
  have hpart : (before ++ text ++ after).toUTF8.extract n.info.startByte n.info.endByte =
      text.toUTF8 := by
    have hbefore : before.toByteArray.extract before.utf8ByteSize
        (before.utf8ByteSize + text.utf8ByteSize) = ByteArray.empty := by
      rw [ByteArray.extract_eq_empty_iff, String.size_toByteArray]
      exact Nat.min_le_right _ _
    have hafter : after.toByteArray.extract (0 - text.utf8ByteSize) 0 = ByteArray.empty := by
      rw [Nat.zero_sub, ByteArray.extract_same]
    have htext : text.toByteArray.extract 0 text.utf8ByteSize = text.toByteArray := by
      rw [← String.size_toByteArray, ByteArray.extract_zero_size]
    show (before ++ text ++ after).toByteArray.extract _ _ = text.toByteArray
    rw [hstart, hend, String.append_assoc, String.toByteArray_append, String.toByteArray_append,
      ByteArray.extract_append, ByteArray.extract_append, String.size_toByteArray,
      String.size_toByteArray, Nat.sub_self, Nat.add_sub_cancel_left, Nat.sub_self, hbefore, htext,
      hafter, ByteArray.append_empty, ByteArray.empty_append]
  unfold textIn
  rw [hpart, Text.lossy_toUTF8]

def part (kind : String) (field : Option String) (bytes rows : Nat × Nat)
    (children : List SyntaxNode) : SyntaxNode :=
  .node ⟨kind, field, bytes.1, bytes.2, rows.1, rows.2⟩ children

end SyntaxNode

end CodeIndex
