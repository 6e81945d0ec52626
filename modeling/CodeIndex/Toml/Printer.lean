import CodeIndex.Number.Shortest
import CodeIndex.Text.Hex
import CodeIndex.Toml.Value

namespace CodeIndex.Toml

def escaped (c : Char) : List Char :=
  if c = '"' then ['\\', '"']
  else if c = '\\' then ['\\', '\\']
  else if c = '\x08' then ['\\', 'b']
  else if c = '\t' then ['\\', 't']
  else if c = '\n' then ['\\', 'n']
  else if c = '\x0c' then ['\\', 'f']
  else if c = '\r' then ['\\', 'r']
  else if c.toNat < 0x20 || c.toNat = 0x7F then '\\' :: 'u' :: Text.hexFixed 4 c.toNat
  else [c]

def quotedText (s : String) : String :=
  String.ofList ('"' :: (s.toList.flatMap escaped ++ ['"']))

def doubleText (d : Double) : String :=
  if d.magnitude = .infinity then (if d.isNegative then "-inf" else "inf")
  else if Double.infinity.bits < d.magnitude.bits then (if d.isNegative then "-nan" else "nan")
  else
    let s := Shortest.text d
    if s.contains '.' then s else s ++ ".0"

mutual

def valueText : Toml → String
  | .text s => quotedText s
  | .integer i => toString i
  | .float d => doubleText d
  | .truth b => if b then "true" else "false"
  | .dateTime m => m.text
  | .list [] => "[]"
  | .list [item] => "[" ++ valueText item ++ "]"
  | .list (item :: items) => "[\n    " ++ valueText item ++ ",\n" ++ itemLines items ++ "]"
  | .table _ es => "\x7b " ++ entriesText es ++ " \x7d"
  | .tables _ => "[]"

def itemLines : List Toml → String
  | [] => ""
  | item :: items => "    " ++ valueText item ++ ",\n" ++ itemLines items

def entriesText : List (String × Toml) → String
  | [] => ""
  | [(name, value)] => name ++ " = " ++ valueText value
  | (name, value) :: es => name ++ " = " ++ valueText value ++ ", " ++ entriesText es

end

def sectionText (s : String × Entries) : String :=
  "[" ++ s.1 ++ "]\n" ++ String.join (s.2.map fun (name, value) =>
    name ++ " = " ++ valueText value ++ "\n")

def documentText (sections : List (String × Entries)) : String :=
  "\n".intercalate (sections.map sectionText)

end CodeIndex.Toml
