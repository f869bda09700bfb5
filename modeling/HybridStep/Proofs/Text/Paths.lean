import HybridStep.Text.Path

/-! # Cutting and joining

Cutting a text at its marks is splitting it, so it is the inverse of joining names that have no mark
in them: joining the pieces gives the text again, and names without marks are found again. -/

namespace HybridStep.Path

theorem cut_eq_splitOn (mark : Char) (cs : List Char) : cut mark cs = cs.splitOn mark := by
  induction cs with
  | nil => rfl
  | cons c cs ih =>
    rw [List.splitOn_cons_eq_if_modifyHead, ← ih, cut]
    by_cases hc : c = mark
    · rw [if_pos hc, if_pos (beq_iff_eq.2 hc)]
    · rw [if_neg hc, if_neg fun h => hc (beq_iff_eq.1 h)]
      cases hcut : cut mark cs with
      | nil => exact absurd hcut (cut_ne_nil mark cs)
      | cons name names => rfl

/-- The names between the marks of a text are the pieces into which it splits. -/
theorem map_toList_names (mark : Char) (text : String) :
    (names mark text).map String.toList = text.toList.splitOn mark := by
  have hid : String.toList ∘ String.ofList = id := funext fun _ => String.toList_ofList
  rw [names, List.map_map, hid, List.map_id, cut_eq_splitOn]

theorem names_ne_nil (mark : Char) (text : String) : names mark text ≠ [] := fun h =>
  cut_ne_nil mark text.toList (List.map_eq_nil_iff.1 h)

/-! ### Dotted paths -/

theorem toList_text (path : List String) :
    (text path).toList = ['.'].intercalate (path.map String.toList) := by
  rw [text, String.toList_intercalate]
  rfl

/-- A path of names without points is read off its text. -/
theorem ofText_of_text {path : List String} (hne : path ≠ [])
    (h : ∀ name ∈ path, '.' ∉ name.toList) : ofText (text path) = path := by
  have hnames : (ofText (text path)).map String.toList = path.map String.toList := by
    rw [ofText, map_toList_names, toList_text]
    refine List.splitOn_intercalate '.' (fun cs hcs => ?_) fun hnil =>
      hne (List.map_eq_nil_iff.1 hnil)
    obtain ⟨name, hname, rfl⟩ := List.mem_map.1 hcs
    exact h name hname
  exact (List.map_inj_right fun _ _ => String.toList_inj.1).1 hnames

/-- The text of the path read off a text is the text. -/
theorem text_ofText (s : String) : text (ofText s) = s := by
  rw [← String.toList_inj, toList_text, ofText, map_toList_names]
  exact List.intercalate_splitOn '.'

theorem ofText_ne_nil (s : String) : ofText s ≠ [] := names_ne_nil '.' s

end HybridStep.Path
