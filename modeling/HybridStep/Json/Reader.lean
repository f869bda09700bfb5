import HybridStep.Json.Scan

/-! # Reading JSON

Values of any form, values that are passed over, and the forms from which descriptions are made:
strings, lists, and records with named fields. What is read decides in the order of the text, so the
first fault counts. Lists and records nest to a limited depth; values that are passed over do not
count. -/

namespace HybridStep.Json

/-! ### Lists and objects -/

/-- The depth inside a list or an object. The outermost value has depth `128`. -/
def enter : Nat → Except JsonFault Nat
  | d + 2 => .ok (d + 1)
  | _ => .error .malformed

/-- The elements of a list up to its end, at most a given number of them. The first one has no comma
before it. -/
def elementsUpTo {α : Type} (item : Reading α) : Nat → Bool → Reading (List α)
  | 0, _ => throw .malformed
  | fuel + 1, first => do
    let c ← peekSome
    if c = ']' then
      drop1
      return []
    if !first then
      if c ≠ ',' then throw .malformed
      drop1
      if (← peekSome) = ']' then throw .malformed
    let a ← item
    let others ← elementsUpTo item fuel false
    return a :: others

/-- The elements of a list, after its opening bracket. -/
def elements {α : Type} (item : Reading α) : Reading (List α) := fun cs =>
  elementsUpTo item (cs.length + 1) true cs

/-- Adds the members of an object up to its end, at most a given number of them. The first one has
no comma before it. -/
def membersUpTo {κ ρ : Type} (key : Reading κ) (add : κ → ρ → Reading ρ) :
    Nat → Bool → ρ → Reading ρ
  | 0, _, _ => throw .malformed
  | fuel + 1, first, r => do
    let c ← peekSome
    if c = '\x7d' then
      drop1
      return r
    if !first then
      if c ≠ ',' then throw .malformed
      drop1
    if (← peekSome) ≠ '"' then throw .malformed
    drop1
    let k ← key
    membersUpTo key add fuel false (← add k r)

/-- Adds the members of an object, after its opening brace. -/
def members {κ ρ : Type} (key : Reading κ) (add : κ → ρ → Reading ρ) (r : ρ) : Reading ρ :=
  fun cs => membersUpTo key add (cs.length + 1) true r cs

/-! ### Values of any form -/

/-- A number begins with a digit or a minus sign. -/
def startsNumber (c : Char) : Bool := c = '-' || Ascii.isDigit c

/-- A value that is neither a list nor an object and begins with the given character. -/
def scalar (c : Char) : Reading Json := do
  if c = 'n' then
    expect "null".toList
    return .null
  else if c = 't' then
    expect "true".toList
    return .bool true
  else if c = 'f' then
    expect "false".toList
    return .bool false
  else if c = '"' then
    drop1
    .string <$> stringBody
  else if startsNumber c then .number <$> readNumber
  else throw .malformed

/-- A value of any form, at a depth. Members are sorted by their keys, and the last of
a key counts. -/
def readValue : Nat → Reading Json
  | 0 => throw .malformed
  | depth + 1 => do
    let c ← peekSome
    if c = '[' then
      if depth = 0 then throw .malformed
      drop1
      .array <$> elements (readValue depth)
    else if c = '\x7b' then
      if depth = 0 then throw .malformed
      drop1
      .object <$> members stringBody (fun k ms => do
        expectMark ':'
        return insertMember k (← readValue depth) ms) []
    else scalar c

/-! ### Values that are passed over -/

/-- Reads past a value, nested to at most a given depth. -/
def skipUpTo : Nat → Reading Unit
  | 0 => throw .malformed
  | fuel + 1 => do
    let c ← peekSome
    if c = '[' then
      drop1
      let _ ← elements (skipUpTo fuel)
    else if c = '\x7b' then
      drop1
      members skipString (fun _ _ => do
        expectMark ':'
        skipUpTo fuel) ()
    else if c = '"' then
      drop1
      skipString
    else if startsNumber c then
      let _ ← writtenNumber .malformed
    else
      let _ ← scalar c

/-- Reads past a value. -/
def skip : Reading Unit := fun cs => skipUpTo (cs.length + 1) cs

/-! ### Wanted forms -/

/-- Refuses a value of a form that is not wanted. A value that is no JSON is refused as such; lists
and objects are not read. -/
def refuse {α : Type} : Reading α := do
  let c ← peekSome
  if c = '[' ∨ c = '\x7b' then throw .mismatched
  let _ ← scalar c
  throw .mismatched

/-- A string. -/
def readString : Reading String := do
  if (← peekSome) = '"' then
    drop1
    stringBody
  else refuse

/-- Null, or what a reader reads. -/
def readOptional {α : Type} (item : Reading α) : Reading (Option α) := do
  if (← peek) = some 'n' then
    expect "null".toList
    return none
  else some <$> item

/-- A list whose elements are read one level deeper. -/
def readList {α : Type} (depth : Nat) (item : Nat → Reading α) : Reading (List α) := do
  if (← peekSome) = '[' then
    let inner ← liftM (enter depth)
    drop1
    elements (item inner)
  else refuse

/-- One of several words, by itself or as an object with the word as its only key and null as its
value. -/
def readWord {α : Type} (depth : Nat) (ofWord : String → Option α) : Reading α := do
  let named : Reading α := do
    match ofWord (← readString) with
    | some a => return a
    | none => throw .mismatched
  let c ← peekSome
  if c = '"' then named
  else if c = '\x7b' then
    let _ ← liftM (enter depth)
    drop1
    let a ← named
    expectMark ':'
    if (← peekSome) = 'n' then expect "null".toList else refuse
    expectMark '\x7d'
    return a
  else throw .malformed

/-! ### Records -/

/-- A field of a record that is being read. -/
structure RecordField (ρ : Type) where
  name : String
  isSet : ρ → Bool
  read : ρ → Reading ρ

/-- A field that is kept where `get` finds it. -/
def field {ρ β : Type} (name : String) (get : ρ → Option β) (put : β → ρ → ρ) (item : Reading β) :
    RecordField ρ :=
  ⟨name, fun r => (get r).isSome, fun r => do return put (← item) r⟩

/-- Reads the member of a key. A field may not come twice, and unknown keys are passed over. -/
def readField {ρ : Type} (fields : List (RecordField ρ)) (key : String) (r : ρ) : Reading ρ := do
  match fields.find? (·.name = key) with
  | none => do
    expectMark ':'
    skip
    return r
  | some f =>
    if f.isSet r then throw .mismatched
    else do
      expectMark ':'
      f.read r

/-- Reads the fields of a record that is written as a list, as far as the list goes. `first` tells
whether no comma comes before the next field. -/
def readPositions {ρ : Type} : List (RecordField ρ) → Bool → ρ → Reading ρ
  | [], _, r => do
    expectMark ']'
    return r
  | f :: fs, first, r => do
    let c ← peekSome
    if c = ']' then
      drop1
      return r
    if !first then
      if c ≠ ',' then throw .malformed
      drop1
      if (← peekSome) = ']' then throw .malformed
    readPositions fs false (← f.read r)

/-- A record with fields, made from what was read of them. It is written as an object, or as a list
of its fields in order. -/
def readRecord {ρ α : Type} (depth : Nat) (start : ρ) (fields : Nat → List (RecordField ρ))
    (finish : ρ → Option α) : Reading α := do
  let c ← peekSome
  let read : Nat → Reading ρ ←
    if c = '\x7b' then pure fun d => members stringBody (readField (fields d)) start
    else if c = '[' then pure fun d => readPositions (fields d) true start
    else refuse
  let inner ← liftM (enter depth)
  drop1
  match finish (← read inner) with
  | some a => return a
  | none => throw .mismatched

/-- The depth of the outermost value. -/
def outermost : Nat := 128

/-- Reads a whole text. -/
def readAll {α : Type} (item : Nat → Reading α) (text : String) : Except JsonFault α := do
  let (a, rest) ← (item outermost).run text.toList
  if rest.all isSpace then return a else throw .malformed

end HybridStep.Json
