import HybridStep.Proofs.Json.Values

/-! # Forms that are read back

Strings, words, lists and records, each read back where the parts of which it consists are. A field
of a record is read back under its name, as long as it has not been read before. -/

namespace HybridStep

namespace Json

variable {α β ρ : Type} {item : Reading α} {v : Json} {a : α} {d : Nat}

theorem reads_string (s : String) : Reads readString (.string s) s := by
  refine ⟨⟨_, _, chars_string s, by decide, by decide⟩, fun rest _ => ?_⟩
  rw [chars_string, List.cons_append, List.append_assoc, readString,
    bind_of_ok (peekSome_cons (by decide) _)]
  exact stringBody_text s rest

/-- A string that may be null is read back if it is there. -/
theorem reads_optional (s : String) : Reads (readOptional readString) (.string s) (some s) := by
  refine ⟨(reads_string s).begins, fun rest hrest => ?_⟩
  have hread := map_of_ok (f := some) ((reads_string s).ok hrest)
  rw [chars_string, List.cons_append] at hread ⊢
  exact hread

theorem reads_word {ofWord : String → Option α} {word : String} (h : ofWord word = some a) :
    Reads (readWord d ofWord) (.string word) a := by
  refine ⟨(reads_string word).begins, fun rest hrest => ?_⟩
  have hread := (reads_string word).ok hrest
  rw [chars_string, List.cons_append] at hread ⊢
  rw [readWord, bind_of_ok (peekSome_cons (by decide) _), if_pos rfl, bind_of_ok hread, h]
  rfl

theorem reads_list {item : Nat → Reading α} {vs : List Json} {as : List α}
    (h : List.Forall₂ (Reads (item (d + 1))) vs as) :
    Reads (readList (d + 2) item) (.array vs) as := by
  refine ⟨⟨_, _, chars_array vs, by decide, by decide⟩, fun rest _ => ?_⟩
  rw [chars_array, List.cons_append, List.append_assoc, readList,
    bind_of_ok (peekSome_cons (by decide) _)]
  exact elements_reads h rest

/-! ### Records -/

variable {fields : List (RecordField ρ)} {name : String} {get : ρ → Option β} {put : β → ρ → ρ}
  {r r' : ρ}

/-- A field is read under its name, unless it has been read before. -/
theorem readField_reads {item : Reading β} {b : β}
    (hfield : fields.find? (·.name = name) = some (field name get put item)) (hget : get r = none)
    (h : Reads item v b) ⦃rest : List Char⦄ (hrest : Ends rest) :
    readField fields name r (':' :: (v.chars ++ rest)) = .ok (put b r, rest) := by
  simp only [readField, hfield]
  have hset : (field name get put item).isSet r = false := by simp [field, hget]
  simp only [hset]
  rw [if_neg (by decide), bind_of_ok (expectMark_cons (by decide) _)]
  show ((do return put (← item) r : Reading ρ)) _ = _
  rw [bind_of_ok (h.ok hrest)]
  rfl

/-- **A record is read back** if its members are read one after the other, each as a field that has
not been read before. -/
theorem reads_record {start : ρ} {fields : Nat → List (RecordField ρ)} {finish : ρ → Option α}
    {ms : List (String × Json)} (h : Adds (readField (fields (d + 1))) start ms r)
    (hfinish : finish r = some a) :
    Reads (readRecord (d + 2) start fields finish) (.object ms) a := by
  refine ⟨⟨_, _, chars_object ms, by decide, by decide⟩, fun rest _ => ?_⟩
  have hread := members_adds h rest
  have henter (cs : List Char) :
      (liftM (enter (d + 2)) : Reading Nat) cs = .ok (d + 1, cs) := rfl
  have hdrop (cs : List Char) : drop1 ('\x7b' :: cs) = .ok ((), cs) := rfl
  rw [chars_object, List.cons_append, List.append_assoc, List.singleton_append, readRecord,
    bind_of_ok (peekSome_cons (by decide) _), if_pos rfl]
  simp only [pure_bind]
  rw [bind_of_ok (henter _), bind_of_ok (hdrop _), bind_of_ok hread, hfinish]
  rfl

end Json

end HybridStep
