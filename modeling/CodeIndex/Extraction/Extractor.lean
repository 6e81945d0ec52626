import CodeIndex.Extraction.Walk
import CodeIndex.Path

namespace CodeIndex

inductive ExtractError where
  | unsupported (path : String)
  | grammar (language reason : String)
  | parse (path : String)
deriving DecidableEq, Repr

def ExtractError.message : ExtractError → String
  | .unsupported path => "Unsupported file type: " ++ path
  | .grammar language reason => "Failed to load grammar for " ++ language ++ ": " ++ reason
  | .parse path => "Failed to parse " ++ path

/-- A pure function of path and text, and the paths it understands. -/
structure Extractor where
  supports : String → Bool
  extract : String → String → Except ExtractError (List ExtractedEntity)

inductive Language where
  | rust | python | javaScript | typeScript | tsx | go
deriving DecidableEq, Repr

def Language.ofPath? (path : String) : Option Language :=
  match Path.extension? path with
  | some "rs" => some .rust
  | some "py" => some .python
  | some "js" | some "jsx" | some "mjs" | some "cjs" => some .javaScript
  | some "ts" => some .typeScript
  | some "tsx" => some .tsx
  | some "go" => some .go
  | _ => none

/-- The extractor over syntax trees: `parse` gives the tree of a text in a language. -/
def Extractor.ofParser (parse : Language → String → Option SyntaxNode) : Extractor where
  supports path := (Language.ofPath? path).isSome
  extract path source :=
    match Language.ofPath? path with
    | none => .error (.unsupported path)
    | some language =>
      match parse language source with
      | none => .error (.parse path)
      | some tree => .ok (tree.entities source none)

end CodeIndex
