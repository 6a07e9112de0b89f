/-
This file writes JSON values, on one line or on a line for each item. Object members keep their
order.
-/

import FrontEnd.Text.Quoted

namespace FrontEnd

/-- The values that are exchanged. -/
inductive Json where
  | null
  | boolean (value : Bool)
  | number (value : Nat)
  | text (value : String)
  | array (items : List Json)
  | object (members : List (String × Json))

namespace Json

/-- A control character is written by its code, unless it has a short escape. -/
def escape (char : Char) : List Char :=
  match char with
  | '"' => ['\\', '"']
  | '\\' => ['\\', '\\']
  | '\x08' => ['\\', 'b']
  | '\t' => ['\\', 't']
  | '\n' => ['\\', 'n']
  | '\x0c' => ['\\', 'f']
  | '\r' => ['\\', 'r']
  | _ =>
      if char.toNat < 0x20 then
        let digits := Text.hexDigits char.toNat
        ['\\', 'u'] ++ List.replicate (4 - digits.length) '0' ++ digits
      else
        [char]

/-- A text between quotes, in which nothing ends it early. -/
def quote (text : String) : String :=
  String.ofList ('"' :: text.toList.flatMap escape ++ ['"'])

mutual

/-- The form without spaces. -/
def compact : Json → String
  | .null => "null"
  | .boolean value => if value then "true" else "false"
  | .number value => toString value
  | .text value => quote value
  | .array items => "[" ++ String.intercalate "," (compactItems items) ++ "]"
  | .object members => "\x7b" ++ String.intercalate "," (compactMembers members) ++ "\x7d"

def compactItems : List Json → List String
  | [] => []
  | first :: rest => first.compact :: compactItems rest

def compactMembers : List (String × Json) → List String
  | [] => []
  | first :: rest => compactMember first :: compactMembers rest

def compactMember : String × Json → String
  | (name, value) => quote name ++ ":" ++ value.compact

end

/-- The parts stand on lines of their own, two spaces deeper than the brackets. -/
def enclose (depth : Nat) (opening close : String) (parts : List String) : String :=
  if parts.isEmpty then opening ++ close
  else
    let margin := String.ofList (List.replicate (2 * depth) ' ')
    let line := "\n" ++ margin ++ "  "
    opening ++ line ++ String.intercalate ("," ++ line) parts ++ "\n" ++ margin ++ close

mutual

/-- The form with a line for each item, below a number of brackets. -/
def pretty (depth : Nat) : Json → String
  | .null => "null"
  | .boolean value => if value then "true" else "false"
  | .number value => toString value
  | .text value => quote value
  | .array items => enclose depth "[" "]" (prettyItems (depth + 1) items)
  | .object members => enclose depth "\x7b" "\x7d" (prettyMembers (depth + 1) members)

def prettyItems (depth : Nat) : List Json → List String
  | [] => []
  | first :: rest => first.pretty depth :: prettyItems depth rest

def prettyMembers (depth : Nat) : List (String × Json) → List String
  | [] => []
  | first :: rest => prettyMember depth first :: prettyMembers depth rest

def prettyMember (depth : Nat) : String × Json → String
  | (name, value) => quote name ++ ": " ++ value.pretty depth

end

end Json

end FrontEnd
