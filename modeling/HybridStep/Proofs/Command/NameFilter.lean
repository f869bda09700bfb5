import HybridStep.Command.NameFilter
import HybridStep.Proofs.Success
import HybridStep.Proofs.Text.Paths
import HybridStep.Proofs.Text.Regex

/-! # What a name pattern matches

A pattern matches the texts that can be cut into its segments between the stars, with some text
without a line feed between neighbouring segments. Its regex says so piece by piece, so this holds
with every engine that is as documented; the only patterns without a filter are those whose regex is
too big for the engine. -/

namespace HybridStep

namespace NameFilter

/-- The texts that can be cut into the segments, in order, literally and from the first to the last
character, with some text without a line feed between neighbouring segments. -/
inductive Cuts : List (List Char) → List Char → Prop
  | last (segment : List Char) : Cuts [segment] segment
  | next {segments : List (List Char)} {rest : List Char} (segment gap : List Char)
      (hgap : '\n' ∉ gap) (hrest : Cuts segments rest) :
      Cuts (segment :: segments) (segment ++ gap ++ rest)

/-- The pieces of a regex for segments: their characters, any text in between, and the end. -/
def piecesBetween : List (List Char) → List Piece
  | [] => [.finish]
  | [segment] => segment.map (fun c => .one (.char c)) ++ [.finish]
  | segment :: next :: segments =>
    segment.map (fun c => .one (.char c)) ++ .many .dot :: piecesBetween (next :: segments)

/-- **The pieces match what can be cut into the segments.** -/
theorem matchesAt_piecesBetween : ∀ {segments : List (List Char)} {done todo : List Char},
    segments ≠ [] → (Piece.MatchesAt (piecesBetween segments) done todo ↔ Cuts segments todo)
  | [], _, _, h => absurd rfl h
  | [segment], done, todo, _ => by
    rw [piecesBetween, Piece.matchesAt_chars]
    constructor
    · rintro ⟨rest, rfl, hrest, -⟩
      rw [hrest, List.append_nil]
      exact .last segment
    · intro h
      cases h with
      | last => exact ⟨[], (List.append_nil segment).symm, rfl, trivial⟩
      | next _ _ _ hrest => cases hrest
  | segment :: next :: segments, done, todo, _ => by
    have hne : next :: segments ≠ [] := List.cons_ne_nil _ _
    rw [piecesBetween, Piece.matchesAt_chars]
    constructor
    · rintro ⟨tail, rfl, h⟩
      obtain ⟨gap, rest, rfl, hgap, h⟩ := Piece.matchesAt_many_dot.1 h
      rw [← List.append_assoc]
      exact .next segment gap hgap ((matchesAt_piecesBetween hne).1 h)
    · intro h
      cases h with
      | @next _ rest _ gap hgap hrest =>
        refine ⟨gap ++ rest, List.append_assoc .., ?_⟩
        exact Piece.matchesAt_many_dot.2
          ⟨gap, rest, rfl, hgap, (matchesAt_piecesBetween hne).2 hrest⟩

variable {engine : RegexEngine} {fits : String → Prop}

/-- Escaped names with repeated dots in between are written as their pieces. -/
theorem written_piecesBetween (h : engine.Documented fits) : ∀ {names : List String}, names ≠ [] →
    Piece.Written (piecesBetween (names.map String.toList))
      (['.', '*'].intercalate (names.map fun name => (engine.escape name).toList) ++ ['$'])
  | [], hne => absurd rfl hne
  | [name], _ => by
    simpa [piecesBetween] using (h.escape name).append (.finish .nil)
  | name :: next :: names, _ => by
    have hrest := written_piecesBetween h (List.cons_ne_nil next names)
    simpa [piecesBetween] using (h.escape name).append (.many .dot hrest)

/-- The regex of a pattern is written as the pieces of its segments, held at the start. -/
theorem written_source (h : engine.Documented fits) (pattern : String) :
    Piece.Written (.start :: piecesBetween (pattern.toList.splitOn '*'))
      (source engine pattern).toList := by
  have hwritten := written_piecesBetween h (Path.names_ne_nil '*' pattern)
  rw [Path.map_toList_names] at hwritten
  simpa [source, String.toList_intercalate, Function.comp_def] using Piece.Written.start hwritten

/-- A regex that is held at the start is found where a name starts, or nowhere. -/
theorem foundIn_start {ps : List Piece} {cs : List Char} :
    Piece.FoundIn (.start :: ps) cs ↔ Piece.MatchesAt ps [] cs := by
  constructor
  · rintro ⟨done, todo, rfl, rfl, h⟩
    exact h
  · exact fun h => ⟨[], cs, rfl, rfl, h⟩

end NameFilter

open Classical in
/-- **Filtering by a pattern is exact.** With every engine that is as documented, a pattern whose
regex fits has a filter, and of the items, in their order and with repetitions, those stay whose
name can be cut into the segments between the stars of the pattern. A pattern whose regex does not
fit is refused as too big. -/
theorem filterByName_exact {engine : RegexEngine} {fits : String → Prop}
    (h : engine.Documented fits) (pattern : String) :
    (fits (NameFilter.source engine pattern) →
      ∃ filter, NameFilter.ofPattern engine pattern = .ok filter ∧
        ∀ {α : Type} (items : List α) (name : α → String),
          filterByName items (some filter) name = items.filter fun item =>
            NameFilter.Cuts (pattern.toList.splitOn '*') (name item).toList) ∧
    (¬ fits (NameFilter.source engine pattern) →
      ∃ limit, NameFilter.ofPattern engine pattern = .error ⟨pattern, .tooBig limit⟩) := by
  have hwritten := NameFilter.written_source h pattern
  constructor
  · intro hfits
    obtain ⟨regex, hregex, hmatch⟩ := h.compile hwritten hfits
    refine ⟨⟨regex⟩, by rw [NameFilter.ofPattern, hregex], fun items name => ?_⟩
    refine List.filter_congr fun item _ => ?_
    rw [NameFilter.isMatch, Bool.eq_iff_iff, hmatch, decide_eq_true_iff, NameFilter.foundIn_start,
      NameFilter.matchesAt_piecesBetween (List.splitOn_ne_nil '*' pattern.toList)]
  · intro hfits
    obtain ⟨limit, hlimit⟩ := h.tooBig hwritten hfits
    exact ⟨limit, by rw [NameFilter.ofPattern, hlimit]⟩

open Classical in
/-- A pattern with a point and a star: with the engine for plain regexes, the point stands for
itself and the star for any text in between. -/
theorem warm_rooms_exact : ∃ filter : NameFilter .plain,
    NameFilter.ofPattern .plain "house.*.warm" = .ok filter ∧
    filterByName ["house.room.warm", "house.room.cool", "house.a.b.warm", "housexroom.warm"]
      (some filter) id = ["house.room.warm", "house.a.b.warm"] ∧
    ["house.room.warm", "house.room.cool", "house.a.b.warm", "housexroom.warm"].filter
      (fun name => NameFilter.Cuts ("house.*.warm".toList.splitOn '*') name.toList) =
        ["house.room.warm", "house.a.b.warm"] := by
  obtain ⟨filter, hfilter, hexact⟩ :=
    (filterByName_exact plain_documented "house.*.warm").1 trivial
  have h : Attempt.succeeds (fun filter => filterByName
      ["house.room.warm", "house.room.cool", "house.a.b.warm", "housexroom.warm"]
      (some filter) id = ["house.room.warm", "house.a.b.warm"])
      (NameFilter.ofPattern .plain "house.*.warm") := by decide +kernel
  obtain ⟨filter', hfilter', hkept⟩ := Attempt.exists_of_succeeds h
  obtain rfl : filter = filter' := Except.ok.inj (hfilter.symm.trans hfilter')
  have hkept := of_decide_eq_true hkept
  exact ⟨filter, hfilter, hkept, (hexact _ id).symm.trans hkept⟩

end HybridStep
