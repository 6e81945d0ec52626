import CodeIndex.Config.Basic
import CodeIndex.Text.Alphanumeric
import CodeIndex.Text.Blank
import CodeIndex.Text.Line

namespace CodeIndex

namespace Config

def isVariableChar (c : Char) : Bool := Text.isAlphanumeric c || c == '_'

/-- The name and the default of a reference in braces. A default needs a name before it. -/
def splitDefault : List Char → List Char × Option (List Char)
  | [] => ([], none)
  | ':' :: '-' :: rest => ([], some rest)
  | c :: rest =>
    let (name, fallback) := splitDefault rest
    (c :: name, fallback)

/-- The value of a reference in braces: of the variable if it is set, else the default. The name of
a variable that has neither is the error. -/
def reference (vars : Variables) (inside : List Char) : Except String String :=
  let (name, fallback) := match splitDefault inside with
    | ([], _) => (inside, none)
    | split => split
  let name := String.ofList name
  match vars.lookup name, fallback with
  | some value, _ => .ok value
  | none, some fallback => .ok (String.ofList fallback)
  | none, none => .error name

/-- Replaces the references to variables in a text: a dollar sign and a name, or a dollar sign and
braces. Two dollar signs stand for one. Every step uses up fuel. -/
def expandFrom (vars : Variables) : Nat → List Char → Except String (List Char)
  | 0, cs => .ok cs
  | _, [] => .ok []
  | fuel + 1, '$' :: '\x7b' :: rest =>
    match Text.splitFirst '\x7d' rest with
    | (inside, some after) => do
      let value ← reference vars inside
      return value.toList ++ (← expandFrom vars fuel after)
    | (_, none) => return '$' :: '\x7b' :: (← expandFrom vars fuel rest)
  | fuel + 1, '$' :: '$' :: rest => return '$' :: (← expandFrom vars fuel rest)
  | fuel + 1, '$' :: rest =>
    let name := rest.takeWhile isVariableChar
    if name.isEmpty then return '$' :: (← expandFrom vars fuel rest)
    else
      match vars.lookup (String.ofList name) with
      | none => .error (String.ofList name)
      | some value =>
        return value.toList ++ (← expandFrom vars fuel (rest.drop name.length))
  | fuel + 1, c :: rest => return c :: (← expandFrom vars fuel rest)

/-- A text with the references to variables replaced, or the name of a variable that is not set. -/
def expandVariables (vars : Variables) (s : String) : Except String String :=
  (expandFrom vars (s.toList.length + 1) s.toList).map String.ofList

def resolveSecret (vars : Variables) (value : Option String) :
    Except ConfigError (Option String) :=
  match value with
  | none => .ok none
  | some raw =>
    if Text.isAllBlank raw then .ok none
    else
      match expandVariables vars raw with
      | .ok s => .ok (some s)
      | .error name => .error (.missingSecret name raw)

def expandPath (home : Option String) (path : String) : String :=
  match path.toList, home with
  | ['~'], some home => home
  | '~' :: '/' :: rest, some home => home ++ String.ofList ('/' :: rest)
  | _, _ => path

end Config

end CodeIndex
