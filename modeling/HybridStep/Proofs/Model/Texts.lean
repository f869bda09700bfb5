import HybridStep.Model.Definition.Reader
import HybridStep.Proofs.Json.Forms

/-! # Texts of descriptions

A description is written field by field, and every part of it is read back from what was written:
the unit or the current state of which nothing is written is read as none, a domain is told by its
form, and the values of ports are read back as values of any form. -/

namespace HybridStep

open Json

/-! ### Parts without entities in them -/

namespace DomainDefinition

theorem strings?_map (tags : List String) : strings? (tags.map Json.string) = some tags := by
  induction tags with
  | nil => rfl
  | cons tag tags ih => rw [List.map_cons, strings?, ih, Option.map_some]

theorem ofJson?_toJson : ∀ d : DomainDefinition, ofJson? d.toJson = some d
  | named _ => rfl
  | enumeration tags => congrArg (Option.map enumeration) (strings?_map tags)

theorem exact_toJson : ∀ d : DomainDefinition, d.toJson.Exact
  | named name => .string name
  | enumeration tags => .array fun v hv => by
    obtain ⟨tag, -, rfl⟩ := List.mem_map.1 hv
    exact .string tag

theorem reads (d : DomainDefinition) {depth : Nat} (h : d.toJson.nesting < depth) :
    Reads (read depth) d.toJson d := by
  have hvalue := reads_of_exact (exact_toJson d) h
  refine ⟨hvalue.begins, fun rest hrest => ?_⟩
  rw [read, bind_of_ok (hvalue.ok hrest), ofJson?_toJson]
  rfl

end DomainDefinition

theorem ResourceDefinition.reads (r : ResourceDefinition) {depth : Nat}
    (h : r.toJson.nesting < depth) : Reads (read depth) r.toJson r := by
  obtain ⟨name, unit, domain⟩ := r
  obtain ⟨d, rfl, hms⟩ := exists_depth_of_object h
  have hdomain : Reads (DomainDefinition.read (d + 1)) domain.toJson domain :=
    domain.reads (hms ("domain", domain.toJson) (by simp))
  cases unit with
  | none =>
    exact reads_record (.cons (readField_reads rfl rfl (reads_string name))
      (.cons (readField_reads rfl rfl hdomain) .nil)) rfl
  | some unit =>
    exact reads_record (.cons (readField_reads rfl rfl (reads_string name))
      (.cons (readField_reads rfl rfl (reads_optional unit))
        (.cons (readField_reads rfl rfl hdomain) .nil))) rfl

theorem PortKind.ofText?_text (kind : PortKind) : ofText? kind.text = some kind := by
  cases kind <;> decide

theorem PortDefinition.reads (p : PortDefinition) {depth : Nat} (hvalue : p.value.Exact)
    (h : p.toJson.nesting < depth) : Reads (read depth) p.toJson p := by
  obtain ⟨name, kind, resource, value⟩ := p
  obtain ⟨d, rfl, hms⟩ := exists_depth_of_object h
  have hvalue : Reads (readValue (d + 1)) value value :=
    reads_of_exact hvalue (hms ("value", value) (by simp))
  exact reads_record (.cons (readField_reads rfl rfl (reads_string name))
    (.cons (readField_reads rfl rfl (reads_word kind.ofText?_text))
      (.cons (readField_reads rfl rfl (reads_string resource))
        (.cons (readField_reads rfl rfl hvalue) .nil)))) rfl

theorem UpdateDefinition.reads (u : UpdateDefinition) {depth : Nat} (h : u.toJson.nesting < depth) :
    Reads (read depth) u.toJson u := by
  obtain ⟨d, rfl, -⟩ := exists_depth_of_object h
  exact reads_record (.cons (readField_reads rfl rfl (reads_string u.name))
    (.cons (readField_reads rfl rfl (reads_string u.state))
      (.cons (readField_reads rfl rfl (reads_string u.target))
        (.cons (readField_reads rfl rfl (reads_string u.function)) .nil)))) rfl

theorem InfluenceDefinition.reads (i : InfluenceDefinition) {depth : Nat}
    (h : i.toJson.nesting < depth) : Reads (read depth) i.toJson i := by
  obtain ⟨d, rfl, -⟩ := exists_depth_of_object h
  exact reads_record (.cons (readField_reads rfl rfl (reads_string i.name))
    (.cons (readField_reads rfl rfl (reads_string i.source))
      (.cons (readField_reads rfl rfl (reads_string i.target)) .nil))) rfl

/-- A list of components is read back if each of them is. -/
theorem reads_components {α : Type} {read : Nat → Reading α} {toJson : α → Json} {as : List α}
    {depth : Nat} (hread : ∀ a ∈ as, ∀ {depth}, (toJson a).nesting < depth →
      Reads (read depth) (toJson a) a)
    (h : (Json.array (as.map toJson)).nesting < depth) :
    Reads (readList depth read) (.array (as.map toJson)) as := by
  obtain ⟨d, rfl, hvs⟩ := exists_depth_of_array h
  refine reads_list (List.forall₂_map_left_iff.2 (List.forall₂_same.2 fun a ha => ?_))
  exact hread a ha (hvs _ (List.mem_map_of_mem ha))

/-! ### Entities -/

namespace EntityDefinition

mutual

/-- The values of the ports of an entity and of all entities inside it. -/
def portValues : EntityDefinition → List Json
  | mk _ ports _ _ _ _ subentities => ports.map (·.value) ++ portValuesOfList subentities

/-- The values of the ports of several entities and of all entities inside them. -/
def portValuesOfList : List EntityDefinition → List Json
  | [] => []
  | e :: es => e.portValues ++ portValuesOfList es

end

theorem toJsons_eq_map (es : List EntityDefinition) : toJsons es = es.map toJson := by
  induction es with
  | nil => rfl
  | cons e es ih => rw [toJsons, ih, List.map_cons]

mutual

theorem reads : (e : EntityDefinition) → {depth : Nat} → (∀ v ∈ e.portValues, v.Exact) →
    e.toJson.nesting < depth → Reads (read depth) e.toJson e
  | mk name ports states current updates influences subentities, depth, hvalues, h => by
    obtain ⟨hports, hinside⟩ := List.forall_mem_append.1 hvalues
    obtain ⟨d, rfl, hms⟩ := exists_depth_of_object h
    have hports : Reads (readList (d + 1) PortDefinition.read)
        (.array (ports.map PortDefinition.toJson)) ports :=
      reads_components (fun p hp _ => p.reads (hports _ (List.mem_map_of_mem hp)))
        (hms ("ports", _) (by simp))
    have hstates : Reads (readList (d + 1) fun _ => readString) (.strings states) states :=
      reads_components (fun s _ _ _ => reads_string s) (hms ("states", .strings states) (by simp))
    have hupdates : Reads (readList (d + 1) UpdateDefinition.read)
        (.array (updates.map UpdateDefinition.toJson)) updates :=
      reads_components (fun u _ _ => u.reads) (hms ("updates", _) (by simp))
    have hinfluences : Reads (readList (d + 1) InfluenceDefinition.read)
        (.array (influences.map InfluenceDefinition.toJson)) influences :=
      reads_components (fun i _ _ => i.reads) (hms ("influences", _) (by simp))
    have hsubentities : Reads (readList (d + 1) fun _ => read d) (.array (toJsons subentities))
        subentities := by
      have hsub := hms ("subentities", .array (toJsons subentities)) (by simp)
      obtain ⟨d', hd, hvs⟩ := exists_depth_of_array hsub
      obtain rfl : d = d' + 1 := by omega
      rw [toJsons_eq_map] at hvs ⊢
      exact reads_list (List.forall₂_map_left_iff.2 (List.forall₂_same.2 fun e he =>
        reads_of_mem subentities hinside e he (hvs _ (List.mem_map_of_mem he))))
    have hlast {r : Parts} (hu : r.updates = none) (hi : r.influences = none)
        (hs : r.subentities = none) :
        Adds (readField (fields (readList (d + 1) fun _ => read d) (d + 1))) r
          [("updates", .array (updates.map UpdateDefinition.toJson)),
            ("influences", .array (influences.map InfluenceDefinition.toJson)),
            ("subentities", .array (toJsons subentities))]
          { r with
            updates := some updates, influences := some influences,
            subentities := some subentities } :=
      .cons (readField_reads rfl hu hupdates) (.cons (readField_reads rfl hi hinfluences)
        (.cons (readField_reads rfl hs hsubentities) .nil))
    rw [read]
    -- the current state is written or left out
    cases current with
    | none =>
      exact reads_record (.cons (readField_reads rfl rfl (reads_string name))
        (.cons (readField_reads rfl rfl hports)
          (.cons (readField_reads rfl rfl hstates) (hlast rfl rfl rfl)))) rfl
    | some current =>
      exact reads_record (.cons (readField_reads rfl rfl (reads_string name))
        (.cons (readField_reads rfl rfl hports)
          (.cons (readField_reads rfl rfl hstates)
            (.cons (readField_reads rfl rfl (reads_optional current)) (hlast rfl rfl rfl))))) rfl

theorem reads_of_mem : (es : List EntityDefinition) → (∀ v ∈ portValuesOfList es, v.Exact) →
    ∀ e ∈ es, ∀ {depth : Nat}, e.toJson.nesting < depth → Reads (read depth) e.toJson e
  | e :: es, hvalues, e', he', depth, h => by
    obtain ⟨hvalues, hothers⟩ := List.forall_mem_append.1 hvalues
    rcases List.mem_cons.1 he' with heq | he'
    · exact heq ▸ reads e hvalues (heq ▸ h)
    · exact reads_of_mem es hothers e' he' h

end

end EntityDefinition

/-! ### Models -/

namespace ModelDefinition

theorem reads (m : ModelDefinition) {depth : Nat} (hvalues : ∀ v ∈ m.entity.portValues, v.Exact)
    (h : m.toJson.nesting < depth) :
    Reads (readRecord depth {} fields ofParts?) m.toJson m := by
  obtain ⟨d, rfl, hms⟩ := exists_depth_of_object h
  have hresources : Reads (readList (d + 1) ResourceDefinition.read)
      (.array (m.resources.map ResourceDefinition.toJson)) m.resources :=
    reads_components (fun r _ _ => r.reads) (hms ("resources", _) (by simp))
  have hentity : Reads (EntityDefinition.read (d + 1)) m.entity.toJson m.entity :=
    m.entity.reads hvalues (hms ("entity", _) (by simp))
  exact reads_record (.cons (readField_reads rfl rfl hresources)
    (.cons (readField_reads rfl rfl hentity) .nil)) rfl

/-- **A description is read back from its text**, as long as the values of its ports have no
floating-point numbers in them and no more than 127 lists and objects stand in one another. -/
theorem ofText_text (m : ModelDefinition) (hvalues : ∀ v ∈ m.entity.portValues, v.Exact)
    (hnesting : m.toJson.nesting ≤ 127) : ofText m.text = .ok m := by
  have hread := (m.reads hvalues (Nat.lt_succ_of_le hnesting)).ok ends_nil
  rw [List.append_nil] at hread
  have hrun : (readRecord outermost {} fields ofParts?).run m.text.toList = .ok (m, []) := hread
  rw [ofText, readAll, hrun]
  rfl

/-- A description with a unit, a current state, an enumeration, an entity inside another one, and a
list in an object as the value of a port. -/
def nestedDefinition : ModelDefinition where
  resources := [⟨"level", some "m\u00b3", .named "real"⟩,
    ⟨"mode", none, .enumeration ["on", "\"off\""]⟩]
  entity := .mk "tank"
    [⟨"p", .input, "level",
      .object [("max", .number (.int 18446744073709551615)), ("of", .array [.null, .bool true])]⟩]
    ["s", "t"] (some "t") [⟨"u", "s", "p", "|s, dt| \x7b\n\ts.p.value \x7d"⟩] [⟨"i", "p", "sub.q"⟩]
    [.mk "sub" [⟨"q", .output, "mode", .string "on"⟩] [] none [] [] []]

theorem nested_ofText : ofText nestedDefinition.text = .ok nestedDefinition := by
  refine ofText_text nestedDefinition ?_ (by decide +kernel)
  have hlist : ∀ v ∈ [Json.null, .bool true], v.Exact :=
    List.forall_mem_cons.2 ⟨.null, List.forall_mem_singleton.2 (.bool true)⟩
  have hobject : ∀ m ∈ [("max", Json.number (.int 18446744073709551615)),
      ("of", .array [.null, .bool true])], m.2.Exact :=
    List.forall_mem_cons.2
      ⟨.int (by decide) (by decide), List.forall_mem_singleton.2 (.array hlist)⟩
  exact List.forall_mem_cons.2 ⟨.object (by decide +kernel) hobject,
    List.forall_mem_singleton.2 (.string "on")⟩

end ModelDefinition

end HybridStep
