import CodeIndex.Text.Utf8

namespace CodeIndex

structure NodeInfo where
  kind : String
  field : Option String
  startByte : Nat
  endByte : Nat
  startRow : Nat
  endRow : Nat
deriving DecidableEq, Repr, Inhabited

inductive SyntaxNode where
  | node (info : NodeInfo) (children : List SyntaxNode)
deriving Repr, Inhabited

namespace SyntaxNode

def info : SyntaxNode → NodeInfo
  | .node info _ => info

def children : SyntaxNode → List SyntaxNode
  | .node _ children => children

def kind (n : SyntaxNode) : String := n.info.kind

def childInField? (n : SyntaxNode) (field : String) : Option SyntaxNode :=
  n.children.find? fun c => c.info.field == some field

def childOfKind? (n : SyntaxNode) (kind : String) : Option SyntaxNode :=
  n.children.find? fun c => c.kind == kind

def textIn (n : SyntaxNode) (source : String) : String :=
  Text.lossy (source.toUTF8.extract n.info.startByte n.info.endByte)

end SyntaxNode

end CodeIndex
