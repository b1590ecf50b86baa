/-! # JSON values and their text

    Records of the bench are written as JSON, on one line or indented by two blanks a level.
    Objects keep the order of their members.  A numeral is kept as it was written; a string or key
    that was read with an unpaired surrogate escape has no text, and what holds it is kept apart. -/

namespace CanScript

/-- A JSON value. -/
inductive Json where
  | null
  | bool (b : Bool)
  | numeral (digits : String)
  | string (text : String)
  | broken
  | array (items : List Json)
  | object (members : List (String × Json))
  deriving Repr

namespace Json

def nat (n : Nat) : Json :=
  numeral (toString n)

def ofOption (value : Option Json) : Json :=
  value.getD null

/-- How one character is written inside a string. -/
def escapeChar (c : Char) : List Char :=
  if c == '"' then ['\\', '"']
  else if c == '\\' then ['\\', '\\']
  else if c == '\n' then ['\\', 'n']
  else if c == '\r' then ['\\', 'r']
  else if c == '\t' then ['\\', 't']
  else if c.toNat == 8 then ['\\', 'b']
  else if c.toNat == 12 then ['\\', 'f']
  else if c.toNat < 32 then
    ['\\', 'u', '0', '0', Nat.digitChar (c.toNat / 16), Nat.digitChar (c.toNat % 16)]
  else [c]

def quote (text : String) : String :=
  String.ofList ('"' :: text.toList.flatMap escapeChar ++ ['"'])

mutual

def compact : Json → String
  | null => "null"
  | bool b => if b then "true" else "false"
  | numeral digits => digits
  | string text => quote text
  | broken => quote ""
  | array items => "[" ++ ",".intercalate (compactItems items) ++ "]"
  | object members => "\x7b" ++ ",".intercalate (compactMembers members) ++ "\x7d"

def compactItems : List Json → List String
  | [] => []
  | item :: items => compact item :: compactItems items

def compactMembers : List (String × Json) → List String
  | [] => []
  | (key, value) :: members => (quote key ++ ":" ++ compact value) :: compactMembers members

end

def newline (level : Nat) : String :=
  "\n" ++ String.ofList (List.replicate (2 * level) ' ')

def bracketed (left right : String) (level : Nat) (entries : List String) : String :=
  if entries.isEmpty then left ++ right
  else
    left ++ newline (level + 1) ++ ("," ++ newline (level + 1)).intercalate entries
      ++ newline level ++ right

mutual

def prettyAt (level : Nat) : Json → String
  | null => "null"
  | bool b => if b then "true" else "false"
  | numeral digits => digits
  | string text => quote text
  | broken => quote ""
  | array items => bracketed "[" "]" level (prettyItems (level + 1) items)
  | object members => bracketed "\x7b" "\x7d" level (prettyMembers (level + 1) members)

def prettyItems (level : Nat) : List Json → List String
  | [] => []
  | item :: items => prettyAt level item :: prettyItems level items

def prettyMembers (level : Nat) : List (String × Json) → List String
  | [] => []
  | (key, value) :: members =>
    (quote key ++ ": " ++ prettyAt level value) :: prettyMembers level members

end

def pretty (value : Json) : String :=
  prettyAt 0 value

end Json

end CanScript
