import HybridStep.Proofs.Model.Sessions
import HybridStep.Proofs.Model.Tree
import HybridStep.Proofs.Text.Paths
import Mathlib.Data.List.Induction

/-! # Paths name what they lead to

Climbing from an entity notes the names on the way; looking these names up from where the climb
ended leads back, as no two components of one entity have the same name. So the path of a port or of
an entity is the one text by which it is found, as long as its names can be told apart in the text:
they have no points, and no two entities without a parent have the same name. -/

namespace HybridStep.Model

variable {m : Model} {a e r : EntityId} {p : PortId} {name : String}

/-! ### Looking up a name -/

theorem Registry.find?_eq_some {ι : Type} {index : ι → Nat} {bound : Nat}
    {owner : ι → Option EntityId} {label : ι → String} {listed : EntityId → List ι}
    (h : Registry index bound owner label listed) {i : ι} :
    ((listed e).find? fun j => label j = name) = some i ↔
      index i < bound ∧ owner i = some e ∧ label i = name := by
  rw [← and_assoc, ← h.mem_iff]
  constructor
  · intro hfind
    exact ⟨List.mem_of_find?_eq_some hfind, by simpa using List.find?_some hfind⟩
  · rintro ⟨hi, hname⟩
    have hsome : ((listed e).find? fun j => label j = name).isSome :=
      List.find?_isSome.2 ⟨i, hi, decide_eq_true hname⟩
    obtain ⟨j, hj⟩ := Option.isSome_iff_exists.1 hsome
    have hlabel : label j = name := by simpa using List.find?_some hj
    rw [hj, h.named (List.mem_of_find?_eq_some hj) hi (hlabel.trans hname.symm)]

theorem Consistent.findPort_iff (hm : m.Consistent) : m.findPort e name = some p ↔
    p.index < m.ports.length ∧ (m.port p).entity = e ∧ (m.port p).name = name := by
  rw [findPort, hm.ports.find?_eq_some, Option.some_inj]

theorem Consistent.findSubentity_iff (hm : m.Consistent) : m.findSubentity e name = some a ↔
    a.index < m.entities.length ∧ (m.entity a).parent = some e ∧ (m.entity a).name = name := by
  rw [findSubentity, hm.subentities.find?_eq_some]

theorem mem_roots : r ∈ m.roots ↔ r.index < m.entities.length ∧ (m.entity r).parent = none := by
  cases r with
  | mk n => simp [roots, Option.isNone_iff_eq_none]

theorem resolveSubentity_snoc : ∀ (names : List String) (e : EntityId),
    m.resolveSubentity e (names ++ [name]) =
      (m.resolveSubentity e names).bind fun a => m.findSubentity a name
  | [], e => by
    simp only [List.nil_append, resolveSubentity, Option.bind_some]
    cases m.findSubentity e name <;> rfl
  | first :: names, e => by
    simp only [List.cons_append, resolveSubentity]
    cases m.findSubentity e first with
    | none => rfl
    | some a => exact resolveSubentity_snoc names a

theorem resolvePort_snoc : ∀ (names : List String) (e : EntityId),
    m.resolvePort e (names ++ [name]) =
      (m.resolveSubentity e names).bind fun a => m.findPort a name
  | [], e => by simp [resolvePort, resolveSubentity]
  | first :: names, e => by
    have hcons : m.resolvePort e (first :: (names ++ [name])) =
        (m.findSubentity e first).bind fun a => m.resolvePort a (names ++ [name]) := by
      cases names <;> rfl
    rw [List.cons_append, hcons, resolveSubentity]
    cases m.findSubentity e first with
    | none => rfl
    | some a => exact resolvePort_snoc names a

/-! ### Down again -/

/-- The names of the entities passed on a climb, from the outside in. -/
def namesDown (m : Model) (es : List EntityId) : List String :=
  (es.map fun a => (m.entity a).name).reverse

theorem namesDown_cons (es : List EntityId) :
    m.namesDown (a :: es) = m.namesDown es ++ [(m.entity a).name] := by
  rw [namesDown, List.map_cons, List.reverse_cons, namesDown]

theorem namesDown_snoc (es : List EntityId) :
    m.namesDown (es ++ [r]) = (m.entity r).name :: m.namesDown es := by
  rw [namesDown, List.map_append, List.reverse_append, namesDown]
  rfl

theorem ClimbsTo.unique {x y : Option (List EntityId)} (h : m.ClimbsTo e a x)
    (h' : m.ClimbsTo e a y) : x = y := by
  induction h generalizing y with
  | met =>
    cases h' with
    | met => rfl
    | missed hne => exact absurd rfl hne
    | up hne => exact absurd rfl hne
  | missed hne hp =>
    cases h' with
    | met => exact absurd rfl hne
    | missed => rfl
    | up _ hp' => cases hp.symm.trans hp'
  | up hne hp _ ih =>
    cases h' with
    | met => exact absurd rfl hne
    | missed _ hp' => cases hp.symm.trans hp'
    | up _ hp' h' =>
      obtain rfl := Option.some.inj (hp.symm.trans hp')
      rw [ih h']

theorem Climbs.unique {es es' : List EntityId} (h : m.Climbs a es) (h' : m.Climbs a es') :
    es = es' := by
  induction h generalizing es' with
  | root hp =>
    cases h' with
    | root => rfl
    | up hp' => cases hp.symm.trans hp'
  | up hp _ ih =>
    cases h' with
    | root hp' => cases hp.symm.trans hp'
    | up hp' h' =>
      obtain rfl := Option.some.inj (hp.symm.trans hp')
      rw [ih h']

/-- One step more below a climb that ends at an entity. -/
theorem ClimbsTo.from_child {b : EntityId} {es : List EntityId} (h : m.ClimbsTo e a (some es))
    (hm : m.Consistent) (hb : (m.entity b).parent = some a) :
    m.ClimbsTo e b (some (b :: es)) := by
  have hle : ∀ {a x}, m.ClimbsTo e a x → x.isSome → e.index ≤ a.index := by
    intro a x h hx
    induction h with
    | met => exact Nat.le_refl _
    | missed => cases hx
    | up _ hp _ ih =>
      rw [Option.isSome_map] at hx
      exact Nat.le_trans (ih hx) (Nat.le_of_lt (hm.below hp))
  have hne : b ≠ e := by
    rintro rfl
    have hlt := hm.below hb
    have hle := hle h rfl
    omega
  exact .up hne hb h

/-- A climb ends at an entity just where it starts inside of it. -/
theorem exists_climbsTo_iff (hm : m.Consistent) :
    (∃ es, m.ClimbsTo e a (some es)) ↔ m.Within e a := by
  constructor
  · rintro ⟨es, h⟩
    generalize hx : some es = x at h
    induction h generalizing es with
    | met => exact .self
    | missed => cases hx
    | up _ hp _ ih =>
      obtain ⟨es', hes', -⟩ := Option.map_eq_some_iff.1 hx.symm
      exact .inside hp (ih es' hes'.symm)
  · intro h
    induction h with
    | self => exact ⟨[], .met⟩
    | inside hp _ ih =>
      obtain ⟨es, hes⟩ := ih
      exact ⟨_, hes.from_child hm hp⟩

theorem ClimbsTo.resolveSubentity {es : List EntityId} (h : m.ClimbsTo e a (some es))
    (hm : m.Consistent) (ha : a.index < m.entities.length) :
    m.resolveSubentity e (m.namesDown es) = some a := by
  generalize hx : some es = x at h
  induction h generalizing es with
  | met =>
    cases hx
    rfl
  | missed => cases hx
  | @up b p x _ hp _ ih =>
    obtain ⟨es', rfl, rfl⟩ := Option.map_eq_some_iff.1 hx.symm
    have hlt : p.index < m.entities.length := Nat.lt_trans (hm.below hp) ha
    rw [namesDown_cons, resolveSubentity_snoc, ih hlt rfl, Option.bind_some,
      hm.findSubentity_iff.2 ⟨ha, hp, rfl⟩]

theorem exists_climbsTo_of_resolveSubentity (hm : m.Consistent) {names : List String}
    (h : m.resolveSubentity e names = some a) :
    ∃ es, m.ClimbsTo e a (some es) ∧ m.namesDown es = names := by
  induction names using List.reverseRecOn generalizing a with
  | nil =>
    cases h
    exact ⟨[], .met, rfl⟩
  | append_singleton names name ih =>
    rw [resolveSubentity_snoc] at h
    obtain ⟨p, hp, hfind⟩ := Option.bind_eq_some_iff.1 h
    obtain ⟨-, hparent, rfl⟩ := hm.findSubentity_iff.1 hfind
    obtain ⟨es, hes, rfl⟩ := ih hp
    exact ⟨a :: es, hes.from_child hm hparent, m.namesDown_cons es⟩

/-- A climb without an end goes on to an entity without a parent, through the one where another
climb ended. -/
theorem ClimbsTo.climbs {es : List EntityId} (h : m.ClimbsTo r a (some es))
    (hr : (m.entity r).parent = none) : m.Climbs a (es ++ [r]) := by
  generalize hx : some es = x at h
  induction h generalizing es with
  | met =>
    cases hx
    exact .root hr
  | missed => cases hx
  | up _ hp _ ih =>
    obtain ⟨es', rfl, rfl⟩ := Option.map_eq_some_iff.1 hx.symm
    exact .up hp (ih rfl)

theorem Climbs.exists_climbsTo {es : List EntityId} (h : m.Climbs a es) (hm : m.Consistent)
    (ha : a.index < m.entities.length) :
    ∃ r es', r ∈ m.roots ∧ m.ClimbsTo r a (some es') ∧ es = es' ++ [r] := by
  induction h with
  | @root b hp => exact ⟨b, [], mem_roots.2 ⟨ha, hp⟩, .met, rfl⟩
  | @up b p es hp _ ih =>
    obtain ⟨r, es', hr, hclimb, rfl⟩ := ih (Nat.lt_trans (hm.below hp) ha)
    exact ⟨r, b :: es', hr, hclimb.from_child hm hp, rfl⟩

/-! ### Paths and their texts -/

/-- The names of a model can be told apart in paths: those of entities and ports have no points,
and those of entities without a parent are different. -/
structure Nameable (m : Model) : Prop where
  entity {e : EntityId} : e.index < m.entities.length → '.' ∉ (m.entity e).name.toList
  port {p : PortId} : p.index < m.ports.length → '.' ∉ (m.port p).name.toList
  root {r r' : EntityId} : r ∈ m.roots → r' ∈ m.roots →
    (m.entity r).name = (m.entity r').name → r = r'

theorem nameable_iff : m.Nameable ↔ (∀ a ∈ m.entities, '.' ∉ a.name.toList) ∧
    (∀ x ∈ m.ports, '.' ∉ x.name.toList) ∧
    ∀ r ∈ m.roots, ∀ r' ∈ m.roots, (m.entity r).name = (m.entity r').name → r = r' := by
  have hentity {n : Nat} (hn : n < m.entities.length) : m.entity ⟨n⟩ = m.entities[n] := by
    rw [entity, List.getElem?_eq_getElem hn, Option.getD_some]
  have hport {n : Nat} (hn : n < m.ports.length) : m.port ⟨n⟩ = m.ports[n] := by
    rw [port, List.getElem?_eq_getElem hn, Option.getD_some]
  constructor
  · intro h
    refine ⟨fun a ha => ?_, fun x hx => ?_, fun r hr r' hr' => h.root hr hr'⟩
    · obtain ⟨n, hn, rfl⟩ := List.getElem_of_mem ha
      exact hentity hn ▸ h.entity hn
    · obtain ⟨n, hn, rfl⟩ := List.getElem_of_mem hx
      exact hport hn ▸ h.port hn
  · rintro ⟨hentities, hports, hroots⟩
    refine ⟨fun {e} he => ?_, fun {p} hp => ?_, fun {r r'} hr hr' => hroots r hr r' hr'⟩
    · exact hentity he ▸ hentities _ (List.getElem_mem he)
    · exact hport hp ▸ hports _ (List.getElem_mem hp)

instance : Decidable m.Nameable := decidable_of_iff _ nameable_iff.symm

/-- Paths and what they lead to are each other's inverse.

* `isSome`: a port has a path from the entities that it lies in, and from no others;
* `port`: the path of a port leads to it;
* `portPath`: a text that leads to a port is its path;
* `entity`: the path of an entity leads to it;
* `entityPath`: a text that leads to an entity is its path. -/
structure PathsInvert (m : Model) : Prop where
  isSome {e : EntityId} {p : PortId} : p.index < m.ports.length →
    ((m.pathToPort e p).isSome ↔ m.Within e (m.port p).entity)
  port {e : EntityId} {p : PortId} {path : String} : p.index < m.ports.length →
    m.pathToPort e p = some path → m.resolvePortPath e path = some p
  portPath {e : EntityId} {p : PortId} {path : String} :
    m.resolvePortPath e path = some p → m.pathToPort e p = some path
  entity {e : EntityId} : e.index < m.entities.length →
    m.resolveEntityPath (m.entityPath e) = some e
  entityPath {e : EntityId} {path : String} :
    m.resolveEntityPath path = some e → m.entityPath e = path

theorem ClimbsTo.pathToPort {x : Option (List EntityId)}
    (h : m.ClimbsTo e (m.port p).entity x) (hm : m.Consistent) :
    m.pathToPort e p = x.map fun es => Path.text (m.namesDown es ++ [(m.port p).name]) := by
  obtain ⟨y, hy, hpath⟩ := hm.walkable.pathToPort e p
  rw [hpath, hy.unique h]
  rfl

theorem Climbs.entityPath {es : List EntityId} (h : m.Climbs e es) (hm : m.Consistent) :
    m.entityPath e = Path.text (m.namesDown es) := by
  obtain ⟨es', hes', hpath⟩ := hm.walkable.entityPath e
  rw [hpath, hes'.unique h]
  rfl

/-- The entities on a climb are there. -/
theorem ClimbsTo.lt_of_mem {es : List EntityId} {b : EntityId} (h : m.ClimbsTo e a (some es))
    (hm : m.Consistent) (ha : a.index < m.entities.length) (hb : b ∈ es) :
    b.index < m.entities.length := by
  generalize hx : some es = x at h
  induction h generalizing es with
  | met =>
    cases hx
    cases hb
  | missed => cases hx
  | up _ hp _ ih =>
    obtain ⟨es', rfl, rfl⟩ := Option.map_eq_some_iff.1 hx.symm
    rcases List.mem_cons.1 hb with rfl | hb
    · exact ha
    · exact ih (Nat.lt_trans (hm.below hp) ha) hb rfl

theorem Nameable.not_mem_namesDown (hn : m.Nameable) {es : List EntityId}
    (h : ∀ b ∈ es, b.index < m.entities.length) {name : String} (hname : name ∈ m.namesDown es) :
    '.' ∉ name.toList := by
  rw [namesDown, List.mem_reverse] at hname
  obtain ⟨b, hb, rfl⟩ := List.mem_map.1 hname
  exact hn.entity (h b hb)

theorem Consistent.port_lt (hm : m.Consistent) (hp : p.index < m.ports.length) :
    (m.port p).entity.index < m.entities.length :=
  lt_of_mem_listed Entity.ports (Eq.refl _) (hm.ports.mem_iff.2 ⟨hp, rfl⟩)

theorem Consistent.resolvePortPath (hm : m.Consistent) (hn : m.Nameable)
    (hp : p.index < m.ports.length) {path : String} (h : m.pathToPort e p = some path) :
    m.resolvePortPath e path = some p := by
  obtain ⟨x, hx, -⟩ := hm.walkable.pathToPort e p
  rw [hx.pathToPort hm] at h
  obtain ⟨es, rfl, rfl⟩ := Option.map_eq_some_iff.1 h
  have howner := hm.port_lt hp
  have hnames : ∀ name ∈ m.namesDown es ++ [(m.port p).name], '.' ∉ name.toList := by
    intro name hname
    rcases List.mem_append.1 hname with hname | hname
    · exact hn.not_mem_namesDown (fun b hb => hx.lt_of_mem hm howner hb) hname
    · exact List.mem_singleton.1 hname ▸ hn.port hp
  rw [Model.resolvePortPath, Path.ofText_of_text (by simp) hnames, resolvePort_snoc,
    hx.resolveSubentity hm howner, Option.bind_some]
  exact hm.findPort_iff.2 ⟨hp, rfl, rfl⟩

theorem Consistent.pathToPort_of_resolve (hm : m.Consistent) {path : String}
    (h : m.resolvePortPath e path = some p) : m.pathToPort e p = some path := by
  obtain ⟨names, name, hpath⟩ : ∃ names name, Path.ofText path = names ++ [name] :=
    ⟨_, _, (List.dropLast_concat_getLast (Path.ofText_ne_nil path)).symm⟩
  rw [Model.resolvePortPath, hpath, resolvePort_snoc] at h
  obtain ⟨a, ha, hfind⟩ := Option.bind_eq_some_iff.1 h
  obtain ⟨-, rfl, rfl⟩ := hm.findPort_iff.1 hfind
  obtain ⟨es, hes, rfl⟩ := exists_climbsTo_of_resolveSubentity hm ha
  rw [hes.pathToPort hm, Option.map_some, ← hpath, Path.text_ofText]

theorem Consistent.resolveEntityPath (hm : m.Consistent) (hn : m.Nameable)
    (he : e.index < m.entities.length) : m.resolveEntityPath (m.entityPath e) = some e := by
  have hclimb := hm.climbs e
  obtain ⟨r, es, hr, hes, hchain⟩ := hclimb.exists_climbsTo hm he
  rw [hchain] at hclimb
  have hnames : ∀ name ∈ m.namesDown (es ++ [r]), '.' ∉ name.toList := by
    intro name hname
    refine hn.not_mem_namesDown (fun b hb => ?_) hname
    rcases List.mem_append.1 hb with hb | hb
    · exact hes.lt_of_mem hm he hb
    · exact List.mem_singleton.1 hb ▸ (mem_roots.1 hr).1
  have hfind : (m.roots.find? fun a => (m.entity a).name = (m.entity r).name) = some r := by
    have hsome : (m.roots.find? fun a => (m.entity a).name = (m.entity r).name).isSome :=
      List.find?_isSome.2 ⟨r, hr, decide_eq_true rfl⟩
    obtain ⟨r', hr'⟩ := Option.isSome_iff_exists.1 hsome
    have hname : (m.entity r').name = (m.entity r).name := by simpa using List.find?_some hr'
    rw [hr', hn.root (List.mem_of_find?_eq_some hr') hr hname]
  have hne : m.namesDown (es ++ [r]) ≠ [] := by simp [namesDown_snoc]
  rw [Model.resolveEntityPath, hclimb.entityPath hm, Path.ofText_of_text hne hnames, namesDown_snoc]
  simp only [hfind, Option.bind_some]
  exact hes.resolveSubentity hm he

theorem Consistent.entityPath_of_resolve (hm : m.Consistent) {path : String}
    (h : m.resolveEntityPath path = some e) : m.entityPath e = path := by
  obtain ⟨first, names, hpath⟩ := List.exists_cons_of_ne_nil (Path.ofText_ne_nil path)
  simp only [Model.resolveEntityPath, hpath] at h
  obtain ⟨r, hfind, hdown⟩ := Option.bind_eq_some_iff.1 h
  obtain ⟨-, hroot⟩ := mem_roots.1 (List.mem_of_find?_eq_some hfind)
  obtain rfl : (m.entity r).name = first := by simpa using List.find?_some hfind
  obtain ⟨es, hes, rfl⟩ := exists_climbsTo_of_resolveSubentity hm hdown
  rw [(hes.climbs hroot).entityPath hm, namesDown_snoc, ← hpath, Path.text_ofText]

/-- **Paths and what they lead to are each other's inverse**, in every built model whose names can
be told apart in paths. -/
theorem Built.paths_invert (hb : m.Built) (hn : m.Nameable) : m.PathsInvert := by
  have hm := hb.consistent
  refine ⟨fun {e p} hp => ?_, fun hp h => hm.resolvePortPath hn hp h,
    hm.pathToPort_of_resolve, hm.resolveEntityPath hn, hm.entityPath_of_resolve⟩
  obtain ⟨x, hx, -⟩ := hm.walkable.pathToPort e p
  rw [hx.pathToPort hm, Option.isSome_map, ← exists_climbsTo_iff hm, Option.isSome_iff_exists]
  constructor
  · rintro ⟨es, rfl⟩
    exact ⟨es, hx⟩
  · rintro ⟨es, hes⟩
    exact ⟨es, hx.unique hes⟩

/-- The calls that make a garden and a house with a room in it and a lamp in that, where a switch of
the house, of the room and of the lamp all have one name. -/
def houseCalls : List BuilderCall :=
  [.resource "mode" none .boolean, .entity "garden" none, .entity "house" none,
    .entity "room" (some ⟨1⟩), .entity "lamp" (some ⟨2⟩),
    .port ⟨1⟩ "switch" .input ⟨0⟩ (.bool true), .port ⟨2⟩ "switch" .input ⟨0⟩ (.bool false),
    .port ⟨3⟩ "switch" .input ⟨0⟩ (.bool true)]

theorem house_paths_invert : Session.Honest {} houseCalls ∧
    (Session.run {} houseCalls).model.Nameable ∧ (Session.run {} houseCalls).model.PathsInvert ∧
    (Session.run {} houseCalls).model.pathToPort ⟨1⟩ ⟨2⟩ = some "room.lamp.switch" ∧
    (Session.run {} houseCalls).model.entityPath ⟨3⟩ = "house.room.lamp" := by
  have hhonest : Session.Honest {} houseCalls := by decide +kernel
  have hn : (Session.run {} houseCalls).model.Nameable := by decide +kernel
  have hinvert := (Session.sound_empty.run hhonest).built.paths_invert hn
  exact ⟨hhonest, hn, hinvert, hinvert.portPath (by decide +kernel),
    hinvert.entityPath (by decide +kernel)⟩

end HybridStep.Model
