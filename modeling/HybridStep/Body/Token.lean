/-! # Token trees

The text of an update body as a sequence of identifiers, punctuation marks, literals and delimited
groups. A punctuation mark is joined if another mark follows it without a space.

Token trees are written back as words with single spaces in between; joined marks and what follows
them make one word, and so does a group with its delimiters. -/

namespace HybridStep

/-- The brackets of a group. -/
inductive Delimiter where
  | paren | bracket | brace
  deriving DecidableEq, Inhabited

/-- A token, or a group of token trees. -/
inductive TokenTree where
  | ident (name : String)
  | punct (mark : Char) (joined : Bool)
  | literal (text : String)
  | group (delimiter : Delimiter) (content : List TokenTree)
  deriving BEq, Inhabited

namespace Delimiter

/-- The delimiter that a character opens. -/
def ofOpening : Char → Option Delimiter
  | '(' => some paren
  | '[' => some bracket
  | '{' => some brace
  | _ => none

/-- The delimiter that a character closes. -/
def ofClosing : Char → Option Delimiter
  | ')' => some paren
  | ']' => some bracket
  | '}' => some brace
  | _ => none

/-- Words in delimiters, as one word. Braces stand apart from what they hold. -/
def enclose (d : Delimiter) (words : List String) : String :=
  let inner := " ".intercalate words
  match d with
  | paren => "(" ++ inner ++ ")"
  | bracket => "[" ++ inner ++ "]"
  | brace => if words.isEmpty then "\x7b \x7d" else "\x7b " ++ inner ++ " \x7d"

end Delimiter

namespace TokenTree

mutual

/-- The number of tokens and groups in a tree. -/
def size : TokenTree → Nat
  | group _ content => 1 + sizeOfList content
  | _ => 1

/-- The number of tokens and groups in a list of trees. -/
def sizeOfList : List TokenTree → Nat
  | [] => 0
  | t :: ts => t.size + sizeOfList ts

end

/-- Puts a joined mark in front of the word that follows it. -/
def glue (mark : Char) : List String → List String
  | [] => [mark.toString]
  | w :: ws => (mark.toString ++ w) :: ws

/-- An operator: its marks, all but the last one joined. -/
def operator : List Char → List TokenTree
  | [] => []
  | [c] => [punct c false]
  | c :: cs => punct c true :: operator cs

/-- The operator with the given text. -/
def op (text : String) : List TokenTree := operator text.toList

/-- A label or lifetime. -/
def lifetime (name : String) : List TokenTree := [punct '\'' true, ident name]

mutual

/-- The word of a tree on its own. -/
def word : TokenTree → String
  | ident name => name
  | punct mark _ => mark.toString
  | literal text => text
  | group d content => d.enclose (words content)

/-- The words of a list of trees. -/
def words : List TokenTree → List String
  | [] => []
  | punct mark true :: ts => glue mark (words ts)
  | t :: ts => t.word :: words ts

end

/-- The text of a list of trees: their words with single spaces in between. -/
def text (ts : List TokenTree) : String := " ".intercalate (words ts)

end TokenTree

end HybridStep
