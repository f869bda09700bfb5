import HybridStep.Text.Ascii

/-! # Quoted literals

Text, byte and zero-terminated literals between quotation marks, with their escapes. A small machine
reads them character by character and gives the characters that they denote. -/

namespace HybridStep.Quoted

open Ascii (hexValue?)

/-- What a quoted literal may hold: any text, ASCII bytes, or text without the character zero. -/
inductive Content where
  | text | bytes | terminated
  deriving DecidableEq

/-- How far the machine is within one character. -/
inductive Phase where
  | plain
  | carriage
  | escape
  | hex
  | hexSecond (first : Nat)
  | unicodeOpen
  | unicode (count value : Nat)
  | gap
  | gapCarriage

/-- What the machine does with a character. -/
inductive Outcome where
  | fail
  | finish
  | next (phase : Phase)
  | emit (c : Char)

/-- The character with a number, if there is one. -/
def charOfNat? (n : Nat) : Option Char := if n.isValidChar then some (Char.ofNat n) else none

/-- A character outside escapes. -/
def stepPlain (content : Content) (c : Char) : Outcome :=
  if c = '"' then .finish
  else if c = '\r' then .next .carriage
  else if c = '\\' then .next .escape
  else match content with
    | .text => .emit c
    | .bytes => if c.toNat < 0x80 then .emit c else .fail
    | .terminated => if c = '\x00' then .fail else .emit c

/-- The character after a backslash. -/
def stepEscape (content : Content) (c : Char) : Outcome :=
  if c = 'x' then .next .hex
  else if c = 'u' then (if content = .bytes then .fail else .next .unicodeOpen)
  else if c = 'n' then .emit '\n'
  else if c = 'r' then .emit '\r'
  else if c = 't' then .emit '\t'
  else if c = '\\' ∨ c = '\'' ∨ c = '"' then .emit c
  else if c = '0' then (if content = .terminated then .fail else .emit '\x00')
  else if c = '\n' then .next .gap
  else if c = '\r' then .next .gapCarriage
  else .fail

/-- The end of an escape by number. -/
def emitNumber (content : Content) (n : Nat) : Outcome :=
  match charOfNat? n with
  | some c => if content = .terminated ∧ n = 0 then .fail else .emit c
  | none => .fail

/-- One step of the machine. -/
def step (content : Content) : Phase → Char → Outcome
  | .plain, c => stepPlain content c
  | .carriage, c => if c = '\n' then .emit '\n' else .fail
  | .escape, c => stepEscape content c
  | .hex, c =>
    match hexValue? c with
    | some d => if content = .text ∧ 8 ≤ d then .fail else .next (.hexSecond d)
    | none => .fail
  | .hexSecond first, c =>
    match hexValue? c with
    | some d => emitNumber content (16 * first + d)
    | none => .fail
  | .unicodeOpen, c => if c = '{' then .next (.unicode 0 0) else .fail
  | .unicode count value, c =>
    match hexValue? c with
    | some d => if count = 6 then .fail else .next (.unicode (count + 1) (16 * value + d))
    | none =>
      if c = '_' ∧ 0 < count then .next (.unicode count value)
      else if c = '}' ∧ 0 < count then emitNumber content value
      else .fail
  | .gap, c =>
    if c = ' ' ∨ c = '\t' ∨ c = '\n' then .next .gap
    else if c = '\r' then .next .gapCarriage
    else stepPlain content c
  | .gapCarriage, c => if c = '\n' then .next .gap else .fail

/-- Runs the machine to the closing quotation mark: the denoted characters, and what follows. -/
def run (content : Content) : Phase → List Char → Option (List Char × List Char)
  | _, [] => none
  | phase, c :: cs =>
    match step content phase c with
    | .fail => none
    | .finish => some ([], cs)
    | .next phase' => run content phase' cs
    | .emit d => (run content .plain cs).map fun (value, rest) => (d :: value, rest)

/-- Runs the machine to the end of one character: what follows it. -/
def afterEscape (content : Content) : Phase → List Char → Option (List Char)
  | _, [] => none
  | phase, c :: cs =>
    match step content phase c with
    | .next .gap | .next .gapCarriage | .fail | .finish => none
    | .next phase' => afterEscape content phase' cs
    | .emit _ => some cs

/-- The literal whose opening quotation mark has been read. -/
def readCooked (content : Content) (cs : List Char) : Option (List Char × List Char) :=
  run content .plain cs

/-- Whether the text goes on with `n` number signs. -/
def startsWithHashes (n : Nat) (cs : List Char) : Bool := cs.take n == List.replicate n '#'

/-- A character inside a literal without escapes, line ends apart. -/
def allowedRaw (content : Content) (c : Char) : Bool :=
  c != '\r' && match content with
    | .text => true
    | .bytes => c.toNat < 0x80
    | .terminated => c != '\x00'

/-- A literal without escapes, which ends at a quotation mark and `n` number signs. -/
def readRaw (content : Content) (n : Nat) : List Char → Option (List Char × List Char)
  | [] => none
  | '"' :: cs =>
    if startsWithHashes n cs then some ([], cs.drop n)
    else (readRaw content n cs).map fun (value, rest) => ('"' :: value, rest)
  | '\r' :: '\n' :: cs =>
    (readRaw content n cs).map fun (value, rest) => ('\r' :: '\n' :: value, rest)
  | c :: cs =>
    if allowedRaw content c then (readRaw content n cs).map fun (value, rest) => (c :: value, rest)
    else none

/-- The literal that starts with number signs and a quotation mark. -/
def readHashed (content : Content) (cs : List Char) : Option (List Char × List Char) :=
  let n := (cs.takeWhile (· == '#')).length
  match cs.drop n with
  | '"' :: rest => if n ≤ 255 then readRaw content n rest else none
  | _ => none

end HybridStep.Quoted
