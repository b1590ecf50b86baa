import CanScript.Json
import CanScript.Number.Digits

/-! # Reading JSON

    A strict reader: no comments, no trailing commas, no leading zeros, no raw control characters in
    strings, and nothing but blanks after the value.  The reader is driven by a budget of steps that
    the length of the text always covers. -/

namespace CanScript.Json

def isSpace (c : Char) : Bool :=
  c == ' ' || c == '\t' || c == '\n' || c == '\r'

def skipSpace (cs : List Char) : List Char :=
  cs.dropWhile isSpace

def hex4? (a b c d : Char) : Option Nat :=
  Number.readDigits? 16 [a, b, c, d]

def simpleEscape? (c : Char) : Option Char :=
  if c == '"' then some '"'
  else if c == '\\' then some '\\'
  else if c == '/' then some '/'
  else if c == 'b' then some (Char.ofNat 8)
  else if c == 'f' then some (Char.ofNat 12)
  else if c == 'n' then some '\n'
  else if c == 'r' then some '\r'
  else if c == 't' then some '\t'
  else none

def isHighSurrogate (n : Nat) : Bool :=
  0xD800 ≤ n && n ≤ 0xDBFF

def isLowSurrogate (n : Nat) : Bool :=
  0xDC00 ≤ n && n ≤ 0xDFFF

/-- The text of a string, and what follows it.  The text is absent when an escape names an unpaired
    surrogate. -/
abbrev StringRead := Option String × List Char

/-- Reads the inside of a string with a budget of characters, the read ones reversed in `seen`;
    `whole` is false once a surrogate was found alone. -/
def readString? (seen : List Char) (whole : Bool) : Nat → List Char → Option StringRead
  | 0, _ => none
  | fuel + 1, cs =>
    match cs with
    | '"' :: rest => some (if whole then some (String.ofList seen.reverse) else none, rest)
    | '\\' :: 'u' :: a :: b :: c :: d :: rest =>
      match hex4? a b c d with
      | none => none
      | some n =>
        if isLowSurrogate n then readString? seen false fuel rest
        else if isHighSurrogate n then
          match rest with
          | '\\' :: 'u' :: a' :: b' :: c' :: d' :: rest' =>
            match hex4? a' b' c' d' with
            | none => none
            | some m =>
              if isLowSurrogate m then
                let point := 0x10000 + (n - 0xD800) * 0x400 + (m - 0xDC00)
                readString? (Char.ofNat point :: seen) whole fuel rest'
              else readString? seen false fuel rest
          | _ => readString? seen false fuel rest
        else readString? (Char.ofNat n :: seen) whole fuel rest
    | '\\' :: e :: rest =>
      match simpleEscape? e with
      | some c => readString? (c :: seen) whole fuel rest
      | none => none
    | c :: rest =>
      if c.toNat < 32 || c == '\\' then none else readString? (c :: seen) whole fuel rest
    | [] => none

def digitRun? (cs : List Char) : Option (List Char × List Char) :=
  let run := cs.takeWhile Char.isDigit
  if run.isEmpty then none else some (run, cs.dropWhile Char.isDigit)

def wholeRun? : List Char → Option (List Char × List Char)
  | '0' :: rest =>
    match rest with
    | c :: _ => if c.isDigit then none else some (['0'], rest)
    | [] => some (['0'], [])
  | cs => digitRun? cs

def fractionRun? : List Char → Option (List Char × List Char)
  | '.' :: rest => (digitRun? rest).map fun (run, more) => ('.' :: run, more)
  | cs => some ([], cs)

/-- The exponent of a numeral, if it has one. -/
def exponentRun? : List Char → Option (List Char × List Char)
  | [] => some ([], [])
  | e :: rest =>
    if e == 'e' || e == 'E' then
      let (sign, digits) :=
        match rest with
        | '+' :: more => (['+'], more)
        | '-' :: more => (['-'], more)
        | _ => ([], rest)
      (digitRun? digits).map fun (run, more) => (e :: sign ++ run, more)
    else some ([], e :: rest)

def readNumeral? (cs : List Char) : Option (Json × List Char) := do
  let (sign, cs) :=
    match cs with
    | '-' :: rest => (['-'], rest)
    | _ => ([], cs)
  let (whole, cs) ← wholeRun? cs
  let (fraction, cs) ← fractionRun? cs
  let (exponent, cs) ← exponentRun? cs
  some (numeral (String.ofList (sign ++ whole ++ fraction ++ exponent)), cs)

def ofMembers (members : List (Option String × Json)) : Json :=
  match members.mapM fun (key, value) => key.map fun text => (text, value) with
  | some members => object members
  | none => broken

/-- A value together with the text that follows it. -/
abbrev Reading (α : Type) := Option (α × List Char)

mutual

/-- Reads a value that starts right here. -/
def readValue? : Nat → List Char → Reading Json
  | 0, _ => none
  | fuel + 1, cs =>
    match cs with
    | 'n' :: 'u' :: 'l' :: 'l' :: rest => some (null, rest)
    | 't' :: 'r' :: 'u' :: 'e' :: rest => some (bool true, rest)
    | 'f' :: 'a' :: 'l' :: 's' :: 'e' :: rest => some (bool false, rest)
    | '"' :: rest =>
      match readString? [] true (rest.length + 1) rest with
      | some (some text, more) => some (string text, more)
      | some (none, more) => some (broken, more)
      | none => none
    | '[' :: rest =>
      match skipSpace rest with
      | ']' :: more => some (array [], more)
      | more => (readItems? fuel more).map fun (items, more) => (array items, more)
    | '\x7b' :: rest =>
      match skipSpace rest with
      | '\x7d' :: more => some (object [], more)
      | more => (readMembers? fuel more).map fun (members, more) => (ofMembers members, more)
    | cs => readNumeral? cs

/-- Reads the items of an array from the first one to the closing bracket. -/
def readItems? : Nat → List Char → Reading (List Json)
  | 0, _ => none
  | fuel + 1, cs =>
    match readValue? fuel cs with
    | none => none
    | some (item, rest) =>
      match skipSpace rest with
      | ']' :: more => some ([item], more)
      | ',' :: more =>
        (readItems? fuel (skipSpace more)).map fun (items, more) => (item :: items, more)
      | _ => none

/-- Reads the members of an object from the first one to the closing brace. -/
def readMembers? : Nat → List Char → Reading (List (Option String × Json))
  | 0, _ => none
  | fuel + 1, cs =>
    match cs with
    | '"' :: rest =>
      match readString? [] true (rest.length + 1) rest with
      | none => none
      | some (key, rest) =>
        match skipSpace rest with
        | ':' :: rest =>
          match readValue? fuel (skipSpace rest) with
          | none => none
          | some (value, rest) =>
            match skipSpace rest with
            | '\x7d' :: more => some ([(key, value)], more)
            | ',' :: more =>
              (readMembers? fuel (skipSpace more)).map fun (members, more) =>
                ((key, value) :: members, more)
            | _ => none
        | _ => none
    | _ => none

end

def read? (text : String) : Option Json :=
  let cs := skipSpace text.toList
  match readValue? (2 * cs.length + 2) cs with
  | some (value, rest) => if (skipSpace rest).isEmpty then some value else none
  | none => none

end CanScript.Json
