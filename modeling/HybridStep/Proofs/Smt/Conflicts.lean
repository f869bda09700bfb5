import HybridStep.Proofs.Smt.Reading

/-! # Conflicts of names

The declarations of a script introduce symbols, and a symbol between bars is the one that stands
between them. A script is free of conflicts if its declarations introduce no symbol twice and none
that has a meaning already. -/

namespace HybridStep

namespace Symbol

/-- The symbol that a written symbol stands for. -/
def read (s : String) : String :=
  match s.toList with
  | '|' :: cs => String.ofList cs.dropLast
  | _ => s

/-- A name with underscores for its bars. -/
def unbar (name : String) : String :=
  String.ofList (name.toList.map fun c => if c = '|' then '_' else c)

theorem unbar_of_no_bar {name : String} (h : '|' ∉ name.toList) : unbar name = name := by
  have hmap : (name.toList.map fun c => if c = '|' then '_' else c) = name.toList.map id :=
    List.map_congr_left fun c hc => if_neg fun hbar : c = '|' => h (hbar ▸ hc)
  rw [unbar, hmap, List.map_id, String.ofList_toList]

/-- **A written name is read back, with underscores for its bars.** -/
theorem read_quote (name : String) : read (quote name) = unbar name := by
  rw [read, quote, String.toList_ofList, quoteChars]
  by_cases h : isSimple name.toList
  · have hbar : '|' ∉ name.toList := fun hmem =>
      (not_special ((simple_of_isSimple h).2 _ hmem)).2.2 rfl
    rw [if_pos h, String.ofList_toList, unbar_of_no_bar hbar]
    split
    · next hcons => exact absurd (hcons ▸ List.mem_cons_self) hbar
    · rfl
  · rw [if_neg h]
    simp [unbar]

/-- The words that may not be symbols: those of the language and its commands. -/
def reservedWords : List String :=
  ["!", "_", "as", "BINARY", "DECIMAL", "exists", "HEXADECIMAL", "forall", "let", "match",
    "NUMERAL", "par", "STRING", "assert", "check-sat", "check-sat-assuming", "declare-const",
    "declare-datatype", "declare-datatypes", "declare-fun", "declare-sort", "define-fun",
    "define-fun-rec", "define-funs-rec", "define-sort", "echo", "exit", "get-assertions",
    "get-assignment", "get-info", "get-model", "get-option", "get-proof", "get-unsat-assumptions",
    "get-unsat-core", "get-value", "pop", "push", "reset", "reset-assertions", "set-info",
    "set-logic", "set-option"]

/-- The sorts and functions of the theories of truth values, integers and reals. -/
def predefined : List String :=
  ["Bool", "true", "false", "not", "=>", "and", "or", "xor", "=", "distinct", "ite", "Int", "-",
    "+", "*", "div", "mod", "abs", "divisible", "<=", "<", ">=", ">", "Real", "/", "to_real",
    "to_int", "is_int"]

/-- A symbol that has no meaning yet. -/
def IsFree (s : String) : Prop := s ∉ reservedWords ∧ s ∉ predefined

instance (s : String) : Decidable (IsFree s) := inferInstanceAs (Decidable (_ ∧ _))

end Symbol

namespace Script

/-- The symbols that a command introduces: a constant, or an enumeration and its constructors. -/
def introduces : Sexp → List String
  | .list [.atom "declare-datatype", .atom name, .list constructors] =>
    Symbol.read name :: constructors.filterMap fun
      | .list [.atom c] => some (Symbol.read c)
      | _ => none
  | .list [.atom "declare-const", .atom name, _] => [Symbol.read name]
  | _ => []

/-- The symbols that the declarations of a script introduce. -/
def introduced (s : Script) : List String := s.commands.flatMap introduces

/-- No symbol is introduced twice, and none has a meaning already. -/
structure ConflictFree (s : Script) : Prop where
  nodup : s.introduced.Nodup
  free : ∀ x ∈ s.introduced, Symbol.IsFree x

instance (s : Script) : Decidable s.ConflictFree :=
  decidable_of_iff (s.introduced.Nodup ∧ ∀ x ∈ s.introduced, Symbol.IsFree x)
    ⟨fun h => ⟨h.1, h.2⟩, fun h => ⟨h.nodup, h.free⟩⟩

/-- The symbols of the enumerations of a script and of their variants. -/
def enumSymbols (s : Script) : List String :=
  s.enums.toList.flatMap fun e => Symbol.unbar e.name :: e.variants.map Symbol.unbar

/-- The symbols of the variables of a script. -/
def variableSymbols (s : Script) : List String := s.vars.keys.map Symbol.unbar

theorem introduces_declareEnum (e : EnumSort) :
    introduces (declareEnum e) = Symbol.unbar e.name :: e.variants.map Symbol.unbar := by
  simp only [introduces, declareEnum, Symbol.read_quote, List.filterMap_map, Function.comp_def,
    List.filterMap_eq_map']

theorem introduces_declareVariable (name : String) (sort : TermSort) :
    introduces (declareVariable name sort) = [Symbol.unbar name] := by
  simp [introduces, declareVariable, Symbol.read_quote]

theorem introduces_assert (t : Term) : introduces (.list [.atom "assert", t.sexp]) = [] := rfl

/-- The symbols that a script introduces are those of its enumerations and of its variables. -/
theorem introduced_eq (s : Script) : s.introduced = s.enumSymbols ++ s.variableSymbols := by
  have hcheck : introduces (.list [.atom "check-sat"]) = [] := rfl
  simp only [introduced, commands, enumSymbols, variableSymbols, OrderedMap.keys,
    List.flatMap_append, List.flatMap_map, introduces_declareEnum, introduces_declareVariable,
    introduces_assert, hcheck, List.flatMap_cons, List.flatMap_nil, List.append_nil, List.map_map]
  rw [List.flatMap_eq_nil_iff.2 fun _ _ => rfl, List.append_nil]
  exact congrArg _ (List.map_eq_flatMap).symm

end Script

end HybridStep
