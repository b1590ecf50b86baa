/-! # Blanks, fields and lines

    Texts are cut at blanks and at line ends.  A blank is a character with the Unicode property
    White_Space; a line ends at a line feed, and a carriage return right before it belongs to the
    line end. -/

namespace CanScript.Text

def isBlank (c : Char) : Bool :=
  let n := c.toNat
  (9 ≤ n && n ≤ 13) || n == 0x20 || n == 0x85 || n == 0xA0 || n == 0x1680
    || (0x2000 ≤ n && n ≤ 0x200A) || n == 0x2028 || n == 0x2029 || n == 0x202F
    || n == 0x205F || n == 0x3000

def trimLeft (cs : List Char) : List Char :=
  cs.dropWhile isBlank

def trimRight (cs : List Char) : List Char :=
  (cs.reverse.dropWhile isBlank).reverse

def trim (cs : List Char) : List Char :=
  trimRight (trimLeft cs)

def fieldsFrom (word : List Char) : List Char → List (List Char)
  | [] => if word.isEmpty then [] else [word.reverse]
  | c :: rest =>
    if isBlank c then
      if word.isEmpty then fieldsFrom [] rest else word.reverse :: fieldsFrom [] rest
    else fieldsFrom (c :: word) rest

def fields (cs : List Char) : List (List Char) :=
  fieldsFrom [] cs

def finishLine : List Char → List Char
  | '\r' :: line => line.reverse
  | line => line.reverse

def linesFrom (line : List Char) : List Char → List (List Char)
  | [] => if line.isEmpty then [] else [line.reverse]
  | '\n' :: rest => finishLine line :: linesFrom [] rest
  | c :: rest => linesFrom (c :: line) rest

def lines (cs : List Char) : List (List Char) :=
  linesFrom [] cs

def dropStart? : List Char → List Char → Option (List Char)
  | [], cs => some cs
  | _ :: _, [] => none
  | p :: ps, c :: cs => if p == c then dropStart? ps cs else none

def dropEnd? (ending cs : List Char) : Option (List Char) :=
  (dropStart? ending.reverse cs.reverse).map List.reverse

def splitAt? (mark : List Char) : List Char → Option (List Char × List Char)
  | [] => (dropStart? mark []).map fun rest => ([], rest)
  | c :: cs =>
    match dropStart? mark (c :: cs) with
    | some rest => some ([], rest)
    | none => (splitAt? mark cs).map fun (before, after) => (c :: before, after)

end CanScript.Text
