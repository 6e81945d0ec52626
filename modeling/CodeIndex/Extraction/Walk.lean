import CodeIndex.Extraction.Declaration

namespace CodeIndex

mutual

/-- The entities among and below the children of a node. -/
def SyntaxNode.entities (source : String) (scope : Option Scope) :
    SyntaxNode → List ExtractedEntity
  | .node _ children => SyntaxNode.entitiesOfList source scope children

def SyntaxNode.entitiesOfList (source : String) (scope : Option Scope) :
    List SyntaxNode → List ExtractedEntity
  | [] => []
  | child :: rest =>
    (match child.declared? source scope with
      | some (kind, name) =>
        child.toEntity source kind name scope ::
          (match kind.scope? name with
            | some inner => SyntaxNode.entities source (some inner) child
            | none => [])
      | none =>
        if SyntaxNode.isWrapper child.kind then SyntaxNode.entities source scope child else [])
    ++ SyntaxNode.entitiesOfList source scope rest

end

end CodeIndex
