import CodeIndex.Json.Value
import CodeIndex.Text.Hex

namespace CodeIndex.Json

def escapeChar (c : Char) : List Char :=
  if c = '"' then ['\\', '"']
  else if c = '\\' then ['\\', '\\']
  else if c = '\n' then ['\\', 'n']
  else if c = '\r' then ['\\', 'r']
  else if c = '\t' then ['\\', 't']
  else if c.toNat = 8 then ['\\', 'b']
  else if c.toNat = 12 then ['\\', 'f']
  else if c.toNat < 32 then ['\\', 'u'] ++ Text.hexFixed 4 c.toNat
  else [c]

def literal (s : String) : List Char := '"' :: (s.toList.flatMap escapeChar ++ ['"'])

def literalOf (s : Option String) : List Char := literal (s.getD "")

def numberText : JsonNumber → List Char
  | .integer negative magnitude =>
    (if negative then ['-'] else []) ++ (toString magnitude).toList
  | .decimal negative mantissa exponent =>
    (if negative then ['-'] else []) ++ (toString mantissa).toList ++ ['e']
      ++ (toString exponent).toList

def newline (depth : Nat) : List Char := '\n' :: List.replicate (2 * depth) ' '

mutual

def prettyAt (depth : Nat) : Json → List Char
  | .null => "null".toList
  | .bool b => (if b then "true" else "false").toList
  | .number n => numberText n
  | .string s => literalOf s
  | .array [] => ['[', ']']
  | .array (item :: items) =>
    '[' :: (newline (depth + 1) ++ prettyAt (depth + 1) item ++ prettyItems (depth + 1) items
      ++ newline depth ++ [']'])
  | .object [] => ['\x7b', '\x7d']
  | .object ((name, value) :: members) =>
    '\x7b' :: (newline (depth + 1) ++ literalOf name ++ [':', ' '] ++ prettyAt (depth + 1) value
      ++ prettyMembers (depth + 1) members ++ newline depth ++ ['\x7d'])

def prettyItems (depth : Nat) : List Json → List Char
  | [] => []
  | item :: items => ',' :: (newline depth ++ prettyAt depth item ++ prettyItems depth items)

def prettyMembers (depth : Nat) : List (Option String × Json) → List Char
  | [] => []
  | (name, value) :: members =>
    ',' :: (newline depth ++ literalOf name ++ [':', ' '] ++ prettyAt depth value
      ++ prettyMembers depth members)

end

def pretty (value : Json) : String := String.ofList (prettyAt 0 value)

mutual

def compactChars : Json → List Char
  | .null => "null".toList
  | .bool b => (if b then "true" else "false").toList
  | .number n => numberText n
  | .string s => literalOf s
  | .array [] => ['[', ']']
  | .array (item :: items) => '[' :: (compactChars item ++ compactItems items ++ [']'])
  | .object [] => ['\x7b', '\x7d']
  | .object ((name, value) :: members) =>
    '\x7b' :: (literalOf name ++ [':'] ++ compactChars value ++ compactMembers members
      ++ ['\x7d'])

def compactItems : List Json → List Char
  | [] => []
  | item :: items => ',' :: (compactChars item ++ compactItems items)

def compactMembers : List (Option String × Json) → List Char
  | [] => []
  | (name, value) :: members =>
    ',' :: (literalOf name ++ [':'] ++ compactChars value ++ compactMembers members)

end

def compact (value : Json) : String := String.ofList (compactChars value)

end CodeIndex.Json
