import HybridStep.Proofs.Encoding.Handles
import HybridStep.Proofs.Text.Digits

/-! # Symbols of writes

What a modifier writes is a version of a port or a numbered version of a local, and the name of its
handle tells the two apart: the last part of a name is its owner, the part before it the number if
there is one. For locals that are read before they are written this fails, as for a local `x_1` and
the first write to a local `x`. -/

namespace HybridStep

/-! ### Parts of names -/

theorem eq_of_append_cons_eq {α : Type} {x : α} {l r l' r' : List α} (hr : x ∉ r) (hr' : x ∉ r')
    (h : l ++ x :: r = l' ++ x :: r') : l = l' ∧ r = r' := by
  rcases List.append_eq_append_iff.1 h with ⟨a, rfl, ha⟩ | ⟨a, rfl, ha⟩
  · cases a with
    | nil => simpa using ha
    | cons y a =>
      rw [List.cons_append, List.cons.injEq] at ha
      exact absurd (ha.2 ▸ List.mem_append_right a List.mem_cons_self) hr
  · cases a with
    | nil => simpa [eq_comm] using ha
    | cons y a =>
      rw [List.cons_append, List.cons.injEq] at ha
      exact absurd (ha.2 ▸ List.mem_append_right a List.mem_cons_self) hr'

theorem underscore_not_mem_toString (n : Nat) : '_' ∉ (toString n).toList := by
  rw [toList_toString]
  exact Nat.underscore_not_in_toDigits

theorem append_eq_append_iff {name owner name' owner' : String} (ho : '_' ∉ owner.toList)
    (ho' : '_' ∉ owner'.toList) :
    name ++ "_" ++ owner = name' ++ "_" ++ owner' ↔ name = name' ∧ owner = owner' := by
  refine ⟨fun h => ?_, fun ⟨hn, ho⟩ => by rw [hn, ho]⟩
  have hlist := congrArg String.toList h
  simp only [String.toList_append, List.append_assoc] at hlist
  obtain ⟨hname, howner⟩ := eq_of_append_cons_eq ho ho' hlist
  exact ⟨String.toList_inj.1 hname, String.toList_inj.1 howner⟩

/-! ### Owners -/

theorem underscore_not_mem_port (q : PortId) : '_' ∉ q.text.toList := by
  rw [PortId.text, String.toList_append, List.mem_append, not_or]
  exact ⟨by decide, underscore_not_mem_toString _⟩

theorem underscore_not_mem_modifier (x : Modifier) : '_' ∉ x.text.toList := by
  cases x <;>
    simp only [Modifier.text, UpdateId.text, InfluenceId.text, EntityId.text, String.toList_append,
      List.mem_append, not_or] <;>
    exact ⟨by decide, underscore_not_mem_toString _⟩

/-- A text of one letter and a number. -/
theorem lettered_inj {a b : String} {x y : Char} (ha : a.toList = [x]) (hb : b.toList = [y])
    {n k : Nat} (h : a ++ toString n = b ++ toString k) : x = y ∧ n = k := by
  have hlist := congrArg String.toList h
  rw [String.toList_append, String.toList_append, ha, hb, List.cons_append, List.cons_append,
    List.cons.injEq] at hlist
  refine ⟨hlist.1, Nat.repr_injective (String.toList_inj.1 ?_)⟩
  simpa using hlist.2

theorem PortId.text_inj {q q' : PortId} (h : q.text = q'.text) : q = q' := by
  cases q
  cases q'
  exact congrArg _ (lettered_inj (x := 'p') (y := 'p') rfl rfl h).2

theorem Modifier.text_inj {x y : Modifier} (h : x.text = y.text) : x = y := by
  rcases x with ⟨⟨n⟩⟩ | ⟨⟨n⟩⟩ | ⟨⟨n⟩⟩ <;> rcases y with ⟨⟨k⟩⟩ | ⟨⟨k⟩⟩ | ⟨⟨k⟩⟩ <;>
    obtain ⟨hletter, rfl⟩ := lettered_inj rfl rfl h <;> first | rfl | cases hletter

theorem port_text_ne_modifier_text (q : PortId) (x : Modifier) : q.text ≠ x.text := by
  intro h
  cases x <;> cases (lettered_inj rfl rfl h).1

/-! ### Handles -/

/-- The names of what can be written: the versions of a port after the prior one, and the numbered
versions of a local. -/
def Model.Names (m : Model) (name : String) : SymbolKey → Version → Prop
  | .step, _ => False
  | .port q, v => name = symbolName (m.port q).name v q.text ∧ v ≠ .prior
  | .local n owner, v => name = symbolName n v owner.text ∧ v ≠ .current

variable {m : Model} {name : String} {key key' : SymbolKey} {v v' : Version}

theorem owner_of_symbolName {a b a' b' : String} (hb : '_' ∉ b.toList) (hb' : '_' ∉ b'.toList)
    (h : symbolName a v b = symbolName a' v' b') : b = b' := by
  cases v <;> cases v' <;> exact ((append_eq_append_iff hb hb').1 h).2

theorem index_of_symbolName {a a' b : String} {k k' : Nat} (hb : '_' ∉ b.toList)
    (h : symbolName a (.index k) b = symbolName a' (.index k') b) : a = a' ∧ k = k' := by
  obtain ⟨hname, -⟩ := (append_eq_append_iff hb hb).1 h
  obtain ⟨ha, hk⟩ := (append_eq_append_iff (underscore_not_mem_toString k)
    (underscore_not_mem_toString k')).1 hname
  exact ⟨ha, Nat.repr_injective hk⟩

theorem version_of_symbolName {a b : String} (hb : '_' ∉ b.toList)
    (h : symbolName a v b = symbolName a v' b) : v = v' := by
  have hne : ∀ k, symbolName a .current b ≠ symbolName a (.index k) b := fun k h => by
    have hlength := congrArg String.length ((append_eq_append_iff hb hb).1 h).1
    rw [String.length_append, String.length_append] at hlength
    have : "_".length = 1 := rfl
    omega
  cases v with
  | current =>
    cases v' with
    | current => rfl
    | index k => exact absurd h (hne k)
  | index k =>
    cases v' with
    | current => exact absurd h.symm (hne k)
    | index k' => rw [(index_of_symbolName hb h).2]

/-- **A name tells what is written.** -/
theorem Model.Names.unique (h : m.Names name key v) (h' : m.Names name key' v') :
    key = key' ∧ v = v' := by
  cases key with
  | step => exact h.elim
  | port q =>
    have hq := underscore_not_mem_port q
    cases key' with
    | step => exact h'.elim
    | port q' =>
      have heq := h.1.symm.trans h'.1
      obtain rfl := PortId.text_inj (owner_of_symbolName hq (underscore_not_mem_port q') heq)
      exact ⟨rfl, version_of_symbolName hq heq⟩
    | «local» n' owner' =>
      exact absurd (owner_of_symbolName hq (underscore_not_mem_modifier owner')
        (h.1.symm.trans h'.1)) (port_text_ne_modifier_text q owner')
  | «local» n owner =>
    have ho := underscore_not_mem_modifier owner
    cases key' with
    | step => exact h'.elim
    | port q' =>
      exact absurd (owner_of_symbolName (underscore_not_mem_port q') ho
        (h'.1.symm.trans h.1)) (port_text_ne_modifier_text q' owner)
    | «local» n' owner' =>
      have heq := h.1.symm.trans h'.1
      obtain rfl := Modifier.text_inj
        (owner_of_symbolName ho (underscore_not_mem_modifier owner') heq)
      cases v with
      | current => exact absurd rfl h.2
      | index k =>
        cases v' with
        | current => exact absurd rfl h'.2
        | index k' =>
          obtain ⟨rfl, rfl⟩ := index_of_symbolName ho heq
          exact ⟨rfl, rfl⟩

/-- In a canonical table the handle of what can be written is a variable of its name. -/
theorem SymbolTable.Canonical.names {T : SymbolTable} {term : Term} (hc : T.Canonical m)
    (h : T.get? key v = some term) (hport : ∀ q, key = .port q → v ≠ .prior)
    (hlocal : ∀ n owner, key = .local n owner → v ≠ .current) (hstep : key ≠ .step) :
    ∃ x, term = .var x ∧ m.Names x.name key v := by
  have hf := hc.fits h
  cases key with
  | step => exact absurd rfl hstep
  | port q =>
    have hv := hport q rfl
    exact ⟨_, Except.ok.inj (hf.symm.trans (portTerm_of_ne hv)), rfl, hv⟩
  | «local» n owner =>
    obtain ⟨sort, rfl⟩ := hf
    exact ⟨_, rfl, rfl, hlocal n owner rfl⟩

end HybridStep
