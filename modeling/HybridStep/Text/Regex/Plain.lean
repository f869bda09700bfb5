import HybridStep.Text.Regex

/-! # Plain regexes

A plain regex is a list of pieces: characters, the dot, either of them repeated by a star, and the
two anchors. It is searched for at all positions of a text at once, from its last piece to its
first. -/

namespace HybridStep

/-- What one character of a text is compared with: a character, or the dot, which stands for every
character but the line feed. -/
inductive Single where
  | char (c : Char)
  | dot
  deriving DecidableEq

/-- A piece of a plain regex.

* `one`: one character;
* `many`: any number of characters;
* `start`: nothing, where the text starts;
* `finish`: nothing, where the text ends. -/
inductive Piece where
  | one (x : Single)
  | many (x : Single)
  | start
  | finish
  deriving DecidableEq

/-- The characters that mean something else than themselves in a regex, unless a backslash stands
before them. -/
def metaCharacters : List Char :=
  ['\\', '.', '+', '*', '?', '(', ')', '|', '[', ']', '\x7b', '\x7d', '^', '$', '#', '&', '-', '~']

/-- Whether a character is one that is compared with. -/
def Single.accepts : Single → Char → Bool
  | char c, d => d = c
  | dot, d => d ≠ '\n'

namespace Piece

/-! ### Texts of pieces -/

/-- A character as one that stands for itself. -/
def escapeChar (c : Char) : List Char := if c ∈ metaCharacters then ['\\', c] else [c]

/-- Reads pieces behind those already read, the last of them first. A star repeats the piece
before it. -/
def read? : List Piece → List Char → Option (List Piece)
  | ps, [] => some ps.reverse
  | ps, '\\' :: c :: cs => if c ∈ metaCharacters then read? (one (.char c) :: ps) cs else none
  | one x :: ps, '*' :: cs => read? (many x :: ps) cs
  | ps, '.' :: cs => read? (one .dot :: ps) cs
  | ps, '^' :: cs => read? (start :: ps) cs
  | ps, '$' :: cs => read? (finish :: ps) cs
  | ps, c :: cs => if c ∈ metaCharacters then none else read? (one (.char c) :: ps) cs

/-! ### Search

For each position in a text, the first and the last one included, a table says whether pieces
match from there on. -/

/-- One character more. -/
def afterOne (x : Single) : List Bool → List Char → List Bool
  | _ :: ms, c :: cs => (x.accepts c && ms.headD false) :: afterOne x ms cs
  | _, _ => [false]

/-- Any number of characters more. -/
def afterMany (x : Single) : List Bool → List Char → List Bool
  | m :: ms, c :: cs =>
    let rest := afterMany x ms cs
    (m || (x.accepts c && rest.headD false)) :: rest
  | ms, _ => ms

/-- At the first position only. -/
def atStart : List Bool → List Bool
  | m :: ms => m :: ms.map fun _ => false
  | [] => []

/-- At the last position only. -/
def atFinish : List Bool → List Bool
  | [m] => [m]
  | _ :: ms => false :: atFinish ms
  | [] => []

/-- The table of a text for a piece more. -/
def extend (ms : List Bool) (cs : List Char) : Piece → List Bool
  | one x => afterOne x ms cs
  | many x => afterMany x ms cs
  | start => atStart ms
  | finish => atFinish ms

/-- The table of a text. -/
def table (cs : List Char) : List Piece → List Bool
  | [] => true :: cs.map fun _ => true
  | p :: ps => p.extend (table cs ps) cs

end Piece

/-- The engine for plain regexes. No regex is too big for it. -/
def RegexEngine.plain : RegexEngine where
  Regex := List Piece
  escape text := String.ofList (text.toList.flatMap Piece.escapeChar)
  compile text :=
    match Piece.read? [] text.toList with
    | some ps => .ok ps
    | none => .error (.malformed "no plain regex")
  isMatch ps text := (Piece.table text.toList ps).contains true

end HybridStep
