import CodeIndex.Entity.Basic
import CodeIndex.Extraction.Tree
import CodeIndex.Text.Blank
import CodeIndex.Text.Line

namespace CodeIndex

/-- What a declaration is nested in; functions in some containers are methods. -/
structure Scope where
  label : String
  holdsMethods : Bool
deriving DecidableEq, Repr, Inhabited

namespace SyntaxNode

/-- The text of a field without blanks at its ends, if any is left. -/
def fieldText? (n : SyntaxNode) (field source : String) : Option String :=
  match n.childInField? field with
  | none => none
  | some child =>
    let text := Text.trim (child.textIn source)
    if text.isEmpty then none else some text

def isWrapper (kind : String) : Bool :=
  ["declaration_list", "block", "class_body", "export_statement", "decorated_definition",
    "interface_body", "object_type", "field_declaration_list", "statement_block", "program",
    "source_file", "module"].contains kind

def implName? (n : SyntaxNode) (source : String) : Option String :=
  match n.fieldText? "type" source with
  | none => none
  | some ty =>
    match n.fieldText? "trait" source with
    | some trait => some (trait ++ " for " ++ ty)
    | none => some ty

def typeDeclared? (n : SyntaxNode) (source : String) : Option (EntityKind × String) :=
  match n.childOfKind? "type_spec" with
  | none => none
  | some spec =>
    let kind := match spec.childInField? "type" with
      | some ty => if ty.kind == "interface_type" then EntityKind.interface else .struct
      | none => .struct
    (spec.fieldText? "name" source).map fun name => (kind, name)

/-- The kind and name of a constant declaration, taken from its first specification. -/
def constantDeclared? (n : SyntaxNode) (source : String) : Option (EntityKind × String) :=
  match n.childOfKind? "const_spec" with
  | none => none
  | some spec => (spec.fieldText? "name" source).map fun name => (.constant, name)

def namedKind? (kind : String) (inMethodScope : Bool) : Option EntityKind :=
  match kind with
  | "function_item" => some (if inMethodScope then .method else .function)
  | "function_signature_item" => some (if inMethodScope then .method else .function)
  | "struct_item" => some .struct
  | "enum_item" => some .enum
  | "trait_item" => some .trait
  | "const_item" => some .constant
  | "static_item" => some .constant
  | "function_definition" => some (if inMethodScope then .method else .function)
  | "class_definition" => some .class_
  | "function_declaration" => some .function
  | "generator_function_declaration" => some .function
  | "class_declaration" => some .class_
  | "abstract_class_declaration" => some .class_
  | "method_definition" => some .method
  | "interface_declaration" => some .interface
  | "enum_declaration" => some .enum
  | "method_declaration" => some .method
  | _ => none

def declared? (n : SyntaxNode) (source : String) (scope : Option Scope) :
    Option (EntityKind × String) :=
  match n.kind with
  | "impl_item" => (n.implName? source).map fun name => (.impl, name)
  | "mod_item" =>
    if (n.childInField? "body").isSome then
      (n.fieldText? "name" source).map fun name => (.module, name)
    else none
  | "type_declaration" => n.typeDeclared? source
  | "const_declaration" => n.constantDeclared? source
  | kind =>
    match namedKind? kind ((scope.map (·.holdsMethods)).getD false) with
    | none => none
    | some entityKind => (n.fieldText? "name" source).map fun name => (entityKind, name)

end SyntaxNode

def EntityKind.scope? (kind : EntityKind) (name : String) : Option Scope :=
  match kind with
  | .impl => some ⟨"impl " ++ name, true⟩
  | .trait => some ⟨"trait " ++ name, true⟩
  | .class_ => some ⟨"class " ++ name, true⟩
  | .module => some ⟨"mod " ++ name, false⟩
  | _ => none

/-- The head of a declaration's text: the first line for functions, constants and modules, else
all before the first brace. An opening brace, or the colons, at the end are left off. -/
def signatureOf (kind : EntityKind) (text : String) : Option String :=
  let first := (Text.lines text).head?
  match kind with
  | .function | .method =>
    first.map fun line => Text.trim (Text.trimEndOf '\x7b' (Text.trim line))
  | .constant | .module => first.map Text.trim
  | _ =>
    let head := match Text.splitFirst '\x7b' text.toList with
      | (before, some _) => String.ofList before
      | (_, none) => first.getD ""
    some (Text.trimEndOf ':' (Text.trim head))

def SyntaxNode.toEntity (n : SyntaxNode) (source : String) (kind : EntityKind) (name : String)
    (scope : Option Scope) : ExtractedEntity where
  kind := kind
  name := name
  span := ⟨n.info.startRow + 1, n.info.endRow + 1⟩
  signature := signatureOf kind (n.textIn source)
  scope := scope.map (·.label)
  text := n.textIn source

end CodeIndex
