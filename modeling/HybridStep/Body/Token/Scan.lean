import HybridStep.Body.Token
import HybridStep.Body.Token.Quoted
import HybridStep.Text.Blank
import HybridStep.Text.Identifier
import HybridStep.Text.Visible

/-! # Scanning token trees

Reads the text of an update body as token trees. Blanks and comments between tokens are skipped;
documentation comments become attributes. A text whose literals or brackets do not close, or with a
character that starts no token, has no token trees. -/

namespace HybridStep.Scan

open Ascii (isDigit digitValue hexValue?)
open Identifier (isStart isContinue)

/-! ### Comments and blanks -/

/-- Whether `cs` starts with the characters of `s`. -/
def startsWith (s : String) (cs : List Char) : Bool := s.toList.isPrefixOf cs

/-- Splits a line off; the line end stays. -/
def splitLine : List Char → List Char × List Char
  | [] => ([], [])
  | '\n' :: cs => ([], '\n' :: cs)
  | '\r' :: '\n' :: cs => ([], '\r' :: '\n' :: cs)
  | c :: cs => (c :: (splitLine cs).1, (splitLine cs).2)

/-- Reads on in a block comment with `depth` open marks: its remaining characters, without the mark
that closes it, and what follows. -/
def blockRest : Nat → List Char → Option (List Char × List Char)
  | depth, '/' :: '*' :: cs =>
    (blockRest (depth + 1) cs).map fun (inner, rest) => ('/' :: '*' :: inner, rest)
  | depth, '*' :: '/' :: cs =>
    if depth = 1 then some ([], cs)
    else (blockRest (depth - 1) cs).map fun (inner, rest) => ('*' :: '/' :: inner, rest)
  | depth, c :: cs => (blockRest depth cs).map fun (inner, rest) => (c :: inner, rest)
  | _, [] => none

/-- A block comment with its content. -/
def blockComment? : List Char → Option (List Char × List Char)
  | '/' :: '*' :: cs => blockRest 1 cs
  | _ => none

/-- Blanks between tokens: the blanks of texts and the two direction marks. -/
def isSpace (c : Char) : Bool := isBlank c || c == '\u200e' || c == '\u200f'

/-- The rest after one blank or one comment that is no documentation. -/
def afterSpace? (cs : List Char) : Option (List Char) :=
  if startsWith "//" cs && !startsWith "//!" cs &&
      (!startsWith "///" cs || startsWith "////" cs) then
    some (splitLine cs).2
  else if startsWith "/**/" cs then some (cs.drop 4)
  else if startsWith "/*" cs && (!startsWith "/**" cs || startsWith "/***" cs) &&
      !startsWith "/*!" cs then
    (blockComment? cs).map (·.2)
  else match cs with
    | c :: rest => if isSpace c then some rest else none
    | [] => none

/-- Skips blanks and comments. -/
def skipSpace (cs : List Char) : List Char :=
  match afterSpace? cs with
  | none => cs
  | some rest => if rest.length < cs.length then skipSpace rest else cs
termination_by cs.length

/-- Whether every carriage return is followed by a line feed. -/
def carriagesPaired : List Char → Bool
  | [] => true
  | '\r' :: '\n' :: cs => carriagesPaired cs
  | '\r' :: _ => false
  | _ :: cs => carriagesPaired cs

/-- A documentation comment: whether it documents what encloses it, its content, and the rest. -/
def docComment? (cs : List Char) : Option (Bool × List Char × List Char) :=
  if startsWith "//!" cs then some (true, splitLine (cs.drop 3))
  else if startsWith "/*!" cs then
    (blockComment? cs).map fun (inner, rest) => (true, inner.drop 1, rest)
  else if startsWith "///" cs && !startsWith "////" cs then some (false, splitLine (cs.drop 3))
  else if startsWith "/**" cs && !startsWith "/***" cs then
    (blockComment? cs).map fun (inner, rest) => (false, inner.drop 1, rest)
  else none

/-- The characters of a text literal in a documentation attribute. -/
def docEscape : List Char → List Char
  | [] => []
  | '\x00' :: cs =>
    match cs with
    | d :: _ => (if '0' ≤ d ∧ d ≤ '7' then "\\x00".toList else "\\0".toList) ++ docEscape cs
    | [] => "\\0".toList
  | c :: cs => Visible.escape c ++ docEscape cs

/-! ### Literals -/

/-- Drops the identifier that a literal may end in. -/
def afterSuffix : List Char → List Char
  | c :: cs => if isStart c then cs.dropWhile isContinue else c :: cs
  | [] => []

/-- What follows a number, which no identifier character may. -/
def wordBreak : List Char → Option (List Char)
  | c :: cs => if isContinue c then none else some (c :: cs)
  | [] => some []

/-- Where the digits of a number before its exponent end. -/
inductive MantissaEnd where
  | reject
  | stop (point : Bool) (rest : List Char)
  | mark (point : Bool) (before after : List Char)

/-- Reads digits, underscores and one point; `point` tells whether it has been read. -/
def mantissa : Bool → List Char → MantissaEnd
  | point, [] => .stop point []
  | point, c :: cs =>
    if isDigit c || c == '_' then mantissa point cs
    else if c = '.' then
      if point then .stop point (c :: cs)
      else match cs with
        | d :: _ => if d == '.' || isStart d then .reject else mantissa true cs
        | [] => mantissa true cs
    else if c = 'e' ∨ c = 'E' then .mark point (c :: cs) cs
    else .stop point (c :: cs)

/-- Reads an exponent; `sign` and `value` tell whether its sign and a digit have been read. -/
def exponent (sign value : Bool) : List Char → Option (List Char)
  | [] => if value then some [] else none
  | c :: cs =>
    if c = '+' ∨ c = '-' then
      if value then some (c :: cs)
      else if sign then none
      else exponent true value cs
    else if isDigit c then exponent sign true cs
    else if c = '_' then exponent sign value cs
    else if value then some (c :: cs)
    else none

/-- What follows the digits of a number with a point or an exponent. -/
def afterFloatDigits (cs : List Char) : Option (List Char) :=
  match cs with
  | c :: rest =>
    if isDigit c then
      match mantissa false rest with
      | .reject => none
      | .stop point after => if point then some after else none
      | .mark point before after =>
        match exponent false false after with
        | some end_ => some end_
        | none => if point then some before else none
    else none
  | [] => none

/-- Reads the digits of a whole number; `empty` tells that none has been read. -/
def wholeDigits (base : Nat) (empty : Bool) : List Char → Option (List Char)
  | [] => if empty then none else some []
  | c :: cs =>
    if isDigit c then
      if base ≤ digitValue c then none else wholeDigits base false cs
    else if c = '_' then
      if empty && base == 10 then none else wholeDigits base empty cs
    else if base = 16 ∧ (hexValue? c).isSome then wholeDigits base false cs
    else if empty then none
    else some (c :: cs)

/-- What follows the digits of a whole number. -/
def afterWholeDigits : List Char → Option (List Char)
  | '0' :: 'x' :: cs => wholeDigits 16 true cs
  | '0' :: 'o' :: cs => wholeDigits 8 true cs
  | '0' :: 'b' :: cs => wholeDigits 2 true cs
  | cs => wholeDigits 10 true cs

/-- What follows a character literal whose opening mark has been read. -/
def afterCharacter (content : Quoted.Content) (cs : List Char) : Option (List Char) :=
  let rest := match cs with
    | '\\' :: cs => Quoted.afterEscape content .escape cs
    | c :: cs => if content = .bytes ∧ 0x80 ≤ c.toNat then none else some cs
    | [] => none
  match rest with
  | some ('\'' :: cs) => some (afterSuffix cs)
  | _ => none

/-- What follows the text literal at the start, if there is one. -/
def afterText (cs : List Char) : Option (List Char) :=
  let found := match cs with
    | '"' :: cs => Quoted.readCooked .text cs
    | 'r' :: cs => Quoted.readHashed .text cs
    | 'b' :: '"' :: cs => Quoted.readCooked .bytes cs
    | 'b' :: 'r' :: cs => Quoted.readHashed .bytes cs
    | 'c' :: '"' :: cs => Quoted.readCooked .terminated cs
    | 'c' :: 'r' :: cs => Quoted.readHashed .terminated cs
    | _ => none
  found.map fun (_, rest) => afterSuffix rest

/-- What follows the character literal at the start, if there is one. -/
def afterCharLiteral : List Char → Option (List Char)
  | 'b' :: '\'' :: cs => afterCharacter .bytes cs
  | '\'' :: cs => afterCharacter .text cs
  | _ => none

/-- What follows the number at the start, if there is one. -/
def afterNumber (cs : List Char) : Option (List Char) :=
  ((afterFloatDigits cs).bind fun rest => wordBreak (afterSuffix rest)) <|>
    ((afterWholeDigits cs).bind fun rest => wordBreak (afterSuffix rest))

/-- What follows the literal at the start, if there is one. -/
def afterLiteral (cs : List Char) : Option (List Char) :=
  afterText cs <|> afterCharLiteral cs <|> afterNumber cs

/-! ### Marks and identifiers -/

/-- The punctuation marks. -/
def marks : List Char := "~!@#$%^&*-=+|;:,<.>/?'".toList

/-- The mark at the start, unless it starts a comment. -/
def mark? (cs : List Char) : Option (Char × List Char) :=
  if startsWith "//" cs || startsWith "/*" cs then none
  else match cs with
    | c :: rest => if marks.contains c then some (c, rest) else none
    | [] => none

/-- Words that cannot be written as raw identifiers. -/
def neverRaw : List String := ["_", "super", "self", "Self", "crate"]

/-- An identifier without a raw mark. -/
def plainIdent? : List Char → Option (List Char × List Char)
  | c :: cs =>
    if isStart c then some (c :: cs.takeWhile isContinue, cs.dropWhile isContinue) else none
  | [] => none

/-- An identifier with or without a raw mark. -/
def anyIdent? : List Char → Option (String × List Char)
  | 'r' :: '#' :: cs =>
    (plainIdent? cs).bind fun (name, rest) =>
      let name := String.ofList name
      if neverRaw.contains name then none else some ("r#" ++ name, rest)
  | cs => (plainIdent? cs).map fun (name, rest) => (String.ofList name, rest)

/-- The starts of literals, which start no identifier. -/
def literalStarts : List String :=
  ["r\"", "r#\"", "r##", "b\"", "b'", "br\"", "br#", "c\"", "cr\"", "cr#"]

/-- The identifier at the start, if there is one. -/
def ident? (cs : List Char) : Option (String × List Char) :=
  if literalStarts.any (startsWith · cs) then none else anyIdent? cs

/-- Whether the apostrophe before `cs` starts a label or lifetime. -/
def startsLifetime (cs : List Char) : Bool :=
  match anyIdent? cs with
  | some (_, '\'' :: _) => false
  | some (_, '#' :: _) => startsWith "r#" cs
  | some _ => true
  | none => false

/-- The punctuation token at the start, if there is one. -/
def punct? (cs : List Char) : Option (TokenTree × List Char) :=
  (mark? cs).bind fun (c, rest) =>
    if c = '\'' then if startsLifetime rest then some (.punct c true, rest) else none
    else some (.punct c (mark? rest).isSome, rest)

/-- A pair of parentheses with a comment that stands for what could not be written. It is one
literal, which has no value. -/
def gapMark : String := "(/*ERROR*/)"

/-- The token at the start, if there is one. -/
def leaf? (cs : List Char) : Option (TokenTree × List Char) :=
  match afterLiteral cs with
  | some rest => some (.literal (String.ofList (cs.take (cs.length - rest.length))), rest)
  | none => punct? cs <|> (ident? cs).map fun (name, rest) => (.ident name, rest)

/-! ### Trees -/

/-- A token or a bracket. -/
inductive Piece where
  | tree (t : TokenTree)
  | opening (d : Delimiter)
  | closing (d : Delimiter)

/-- The tokens of a documentation comment. -/
def docPieces (inner : Bool) (content : List Char) : List Piece :=
  let text := "\"" ++ String.ofList (docEscape content) ++ "\""
  [.tree (.punct '#' false)] ++ (if inner then [.tree (.punct '!' false)] else []) ++
    [.tree (.group .bracket [.ident "doc", .punct '=' false, .literal text])]

/-- The next piece or pieces, and what follows them. -/
def pieces? (cs : List Char) : Option (List Piece × List Char) :=
  match docComment? cs with
  | some (inner, content, rest) =>
    if carriagesPaired content then some (docPieces inner content, rest) else none
  | none =>
    if startsWith gapMark cs then
      some ([.tree (.literal gapMark)], cs.drop gapMark.length)
    else match cs with
    | [] => none
    | c :: rest =>
      match Delimiter.ofOpening c, Delimiter.ofClosing c with
      | some d, _ => some ([.opening d], rest)
      | none, some d => some ([.closing d], rest)
      | none, none => (leaf? cs).map fun (t, rest) => ([.tree t], rest)

/-- All pieces of a text. -/
def allPieces (cs : List Char) : Option (List Piece) :=
  match skipSpace cs with
  | [] => some []
  | next =>
    match pieces? next with
    | none => none
    | some (ps, rest) =>
      if rest.length < cs.length then (allPieces rest).map (ps ++ ·) else none
termination_by cs.length

/-- Builds trees from pieces. The stack holds the open groups, innermost first, each with the trees
before it; trees are collected in reverse. -/
def assemble : List (Delimiter × List TokenTree) → List TokenTree → List Piece →
    Option (List TokenTree)
  | [], trees, [] => some trees.reverse
  | _ :: _, _, [] => none
  | stack, trees, .tree t :: ps => assemble stack (t :: trees) ps
  | stack, trees, .opening d :: ps => assemble ((d, trees) :: stack) [] ps
  | [], _, .closing _ :: _ => none
  | (d, before) :: stack, trees, .closing d' :: ps =>
    if d = d' then assemble stack (.group d trees.reverse :: before) ps else none

/-- The token trees of a text. A byte order mark at its start is dropped. -/
def trees? (text : String) : Option (List TokenTree) :=
  let cs := match text.toList with
    | '\ufeff' :: cs => cs
    | cs => cs
  (allPieces cs).bind (assemble [] [])

end HybridStep.Scan
