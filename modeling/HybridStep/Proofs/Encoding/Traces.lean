import HybridStep.Proofs.Encoding.Symbols
import HybridStep.Proofs.Encoding.Updates
import Mathlib.Data.List.Nodup

/-! # Writes on paths

The constraints of a body as a tree of writes: a statement writes once, whatever the number of its
targets, a path ends with the closing of ports and perhaps a return, each of them a write of its
own, and a fork is a choice between two trees. Along a path every write makes versions that are
higher than those before it, so no symbol is defined by two of them. -/

namespace HybridStep

/-! ### Symbols that constraints define -/

namespace Term

mutual

/-- The symbols that a constraint defines, in any of its arms. -/
def defines : Term → List String
  | .app .eq (.var x :: _) _ => [x.name]
  | .app .ite (_ :: arms) _ => definesList arms
  | .app .and ts _ => definesList ts
  | _ => []

/-- The symbols that several constraints define. -/
def definesList : List Term → List String
  | [] => []
  | t :: ts => t.defines ++ definesList ts

end

theorem definesList_append (ts us : List Term) :
    definesList (ts ++ us) = definesList ts ++ definesList us := by
  induction ts with
  | nil => rfl
  | cons t ts ih => rw [List.cons_append, definesList, ih, definesList, List.append_assoc]

/-- The conjunction of constraints; the empty one is true. -/
def conj (ts : List Term) : Term := if ts.isEmpty then .bool true else .app .and ts .bool

theorem defines_conj (ts : List Term) : (conj ts).defines = definesList ts := by
  cases ts <;> rfl

theorem mkAnd_eq {ts : List Term} {t : Term} (h : mkAnd ts = .ok t) :
    t = conj ts ∧ t.sort = .bool := by
  unfold mkAnd mkJunction at h
  split at h
  · cases h
  · cases h
    unfold conj
    split <;> exact ⟨rfl, rfl⟩

theorem defines_mkEq {x : Variable} {rhs t : Term} (h : mkEq (.var x) rhs = .ok t) :
    t.defines = [x.name] := by
  unfold mkEq at h
  split at h
  · cases h
    rfl
  · cases h

end Term

/-! ### Trees of writes -/

/-- What the encoding of a flow writes. -/
inductive Trace where
  | stop (ends : List Term)
  | step (here : List Term) (rest : Trace)
  | fork (cond : Term) (yes no : Trace)

namespace Trace

open Term (conj definesList)

/-- The constraints. A fork is the choice between the conjunctions of its arms. -/
def constraints : Trace → List Term
  | stop ends => ends
  | step here rest => here ++ rest.constraints
  | fork cond yes no => [.app .ite [cond, conj yes.constraints, conj no.constraints] .bool]

/-- The paths, with one arm of every choice. A path is a list of writes, and a write the list of its
equations. -/
def paths : Trace → List (List (List Term))
  | stop ends => [ends.map fun t => [t]]
  | step here rest => rest.paths.map fun path => here :: path
  | fork _ yes no => yes.paths ++ no.paths

/-- No symbol is defined by two different writes. -/
def FreshWrites (path : List (List Term)) : Prop :=
  path.Pairwise fun w w' => ∀ x ∈ definesList w, x ∉ definesList w'

instance (path : List (List Term)) : Decidable (FreshWrites path) :=
  inferInstanceAs (Decidable (List.Pairwise _ _))

theorem paths_ne_nil : (tr : Trace) → tr.paths ≠ []
  | stop ends => by simp [paths]
  | step here rest => by simpa [paths] using rest.paths_ne_nil
  | fork cond yes no => by simp [paths, yes.paths_ne_nil]

/-- A symbol is defined by the constraints if it is defined on some path. -/
theorem mem_defines {x : String} : (tr : Trace) →
    (x ∈ definesList tr.constraints ↔ ∃ path ∈ tr.paths, ∃ w ∈ path, x ∈ definesList w)
  | stop ends => by
    have hmem : ∀ ts : List Term, x ∈ definesList ts ↔ ∃ t ∈ ts, x ∈ definesList [t] := by
      intro ts
      induction ts with
      | nil => simp [definesList]
      | cons t ts ih => simp [definesList, ih]
    simp [constraints, paths, hmem ends]
  | step here rest => by
    obtain ⟨path, hpath⟩ := List.exists_mem_of_ne_nil _ rest.paths_ne_nil
    rw [constraints, Term.definesList_append, List.mem_append, rest.mem_defines]
    simp only [paths, List.mem_map, exists_exists_and_eq_and, List.mem_cons, exists_eq_or_imp]
    constructor
    · rintro (hx | ⟨path, hpath, hx⟩)
      · exact ⟨path, hpath, .inl hx⟩
      · exact ⟨path, hpath, .inr hx⟩
    · rintro ⟨path, hpath, hx | hx⟩
      · exact .inl hx
      · exact .inr ⟨path, hpath, hx⟩
  | fork cond yes no => by
    have hfork : definesList (fork cond yes no).constraints =
        definesList yes.constraints ++ definesList no.constraints := by
      simp [constraints, definesList, Term.defines, Term.defines_conj]
    rw [hfork, List.mem_append, yes.mem_defines, no.mem_defines]
    simp only [paths, List.mem_append, or_and_right, exists_or]

end Trace

namespace Context

open SymbolTable (GrowsBy)
open Term (conj definesList)
open Trace (FreshWrites)

variable {c : Context} {s : Scope} {p p' : Progress} {T : SymbolTable}

/-- Encodes a flow from a position on as the tree of its writes. -/
def trace (c : Context) : Flow → Scope → Encoder Trace
  | .done, s => do
    let closed ← c.close s
    return .stop closed
  | .step statement rest, s => do
    let here ← c.statement s statement
    let there ← trace c rest { s with position := s.position + 1 }
    return .step here there
  | .ret value, s => do
    let closed ← c.closeBeforeReturn s
    let written ← c.returned s value
    return .stop (closed ++ written)
  | .fork test _ yes no, s => do
    let cond ← c.term s (some .bool) test
    let yes ← trace c yes (c.scope yes.straight s.versions)
    let no ← trace c no (c.scope no.straight s.versions)
    return .fork cond yes no

theorem forked_eq {cond t : Term} {yes no : List Term} (h : forked cond yes no = .ok t) :
    t = .app .ite [cond, conj yes, conj no] .bool := by
  obtain ⟨ty, hy, h⟩ := Attempt.bind_ok.1 h
  obtain ⟨tn, hn, h⟩ := Attempt.bind_ok.1 h
  obtain ⟨rfl, hsort⟩ := Term.mkAnd_eq (checked_eq_ok.1 hy)
  obtain ⟨rfl, -⟩ := Term.mkAnd_eq (checked_eq_ok.1 hn)
  have hi := checked_eq_ok.1 h
  unfold Term.mkIte at hi
  split at hi
  · cases hi
    rw [hsort]
  · cases hi

/-- **The tree of writes has the constraints of the flow.** -/
theorem trace_of_paths : (fl : Flow) → ∀ {s : Scope} {p p' : Progress} {cs : List Term},
    c.paths fl s p = .ok cs p' → ∃ tr, c.trace fl s p = .ok tr p' ∧ tr.constraints = cs
  | .done, s, p, p', cs, h =>
    ⟨.stop cs, Stateful.bind_ok.2 ⟨cs, p', h, rfl⟩, rfl⟩
  | .step n rest, s, p, p', cs, h => by
    obtain ⟨here, q, there, hhere, hthere, rfl⟩ := step_ok h
    obtain ⟨tr, htr, rfl⟩ := trace_of_paths rest hthere
    exact ⟨.step here tr, Stateful.bind_ok.2 ⟨here, q, hhere, Stateful.bind_ok.2 ⟨tr, _, htr, rfl⟩⟩,
      rfl⟩
  | .ret value, s, p, p', cs, h => by
    obtain ⟨closed, q, written, hclosed, hwritten, rfl⟩ := ret_ok h
    exact ⟨.stop (closed ++ written), Stateful.bind_ok.2 ⟨closed, q, hclosed,
      Stateful.bind_ok.2 ⟨written, _, hwritten, rfl⟩⟩, rfl⟩
  | .fork test whole yes no, s, p, p', cs, h => by
    obtain ⟨cond, p1, ys, p2, ns, t, hcond, hyes, hno, hfork, rfl⟩ := fork_ok h
    obtain ⟨yes', hyes', rfl⟩ := trace_of_paths yes hyes
    obtain ⟨no', hno', rfl⟩ := trace_of_paths no hno
    refine ⟨.fork cond yes' no', ?_, by rw [forked_eq hfork]; rfl⟩
    exact Stateful.bind_ok.2 ⟨cond, p1, hcond, Stateful.bind_ok.2 ⟨yes', p2, hyes',
      Stateful.bind_ok.2 ⟨no', p', hno', rfl⟩⟩⟩

/-! ### Symbols of writes -/

/-- A symbol of a handle that is made after given numbers of writes. -/
def FreshSymbol (c : Context) (count : VarKey → Nat) (x : String) : Prop :=
  ∃ key v, c.model.Names x (c.symbolKey key) v ∧ c.Fresh count key v

/-- The handle of a write is a variable with a name of its own. -/
theorem names_of_index (hc : T.Canonical c.model) {key : VarKey} {k : Nat} {term : Term}
    (h : T.get? (c.symbolKey key) (.index (k + 1)) = some term) :
    ∃ x, term = .var x ∧ c.model.Names x.name (c.symbolKey key) (.index (k + 1)) := by
  refine hc.names h (fun q _ => by simp [Version.prior]) (fun _ _ _ => by simp) ?_
  cases key <;> simp [symbolKey]

theorem defines_equate {key : VarKey} {o : Operand} {x : Variable} {t : Term}
    (h : c.equate (.var x) key o = .ok t) : t.defines = [x.name] := by
  obtain ⟨u, -, h⟩ := Attempt.bind_ok.1 h
  exact Term.defines_mkEq (checked_eq_ok.1 h)

theorem defines_equateAll {o : Operand} : ∀ {hs : List (VarKey × Term)} {ts : List Term},
    c.equateAll o hs = .ok ts → ∀ x ∈ definesList ts,
      ∃ kh ∈ hs, ∀ y, kh.2 = .var y → y.name = x
  | [], ts, h => by
    cases h
    simp [definesList]
  | (key, handle) :: rest, ts, h => by
    obtain ⟨first, hfirst, h⟩ := Attempt.bind_ok.1 h
    obtain ⟨others, hothers, h⟩ := Attempt.bind_ok.1 h
    cases h
    intro x hx
    rcases List.mem_append.1 hx with hx | hx
    · refine ⟨(key, handle), List.mem_cons_self, ?_⟩
      rintro y rfl
      rw [defines_equate hfirst, List.mem_singleton] at hx
      exact hx.symm
    · obtain ⟨kh, hkh, hy⟩ := defines_equateAll hothers x hx
      exact ⟨kh, List.mem_cons_of_mem _ hkh, hy⟩

/-- A statement defines the next versions of what it writes. -/
theorem defines_statement {n : Node} {cs : List Term} (h : c.statement s n p = .ok cs p')
    (hin : p'.table.Extends T) (hc : T.Canonical c.model) : ∀ x ∈ definesList cs,
      ∃ key ∈ n.writes c.key?, c.model.Names x (c.symbolKey key) (.index (s.previous key + 1)) := by
  cases n <;> try exact (Stateful.throw_ok h).elim
  case assign targets value =>
    obtain ⟨hs, q, o, hhs, ho, hcs⟩ := assign_ok h
    obtain ⟨hkeys, hget⟩ := targetHandles_ok hhs
    have hgrew := adds_expr s value _ ho
    rcases hcs with ⟨-, rfl⟩ | ⟨-, hcs⟩
    · simp [definesList]
    · intro x hx
      obtain ⟨kh, hkh, hy⟩ := defines_equateAll hcs x hx
      obtain ⟨y, hterm, hname⟩ := names_of_index hc (hin.kept (hgrew.table.kept (hget kh hkh)))
      obtain rfl := hy y hterm
      exact ⟨kh.1, by rw [Node.writes, mapM_key? hkeys]; exact List.mem_map_of_mem hkh, hname⟩
  case augment target op value =>
    obtain ⟨key, _, _, _, _, _, handle, equation, hk, -, -, -, hhandle, heq, rfl⟩ := augment_ok h
    obtain ⟨y, rfl, hname⟩ := names_of_index hc (hin.kept (writeKey_ok hhandle))
    intro x hx
    rw [definesList, defines_equate heq] at hx
    obtain rfl : x = y.name := by simpa [definesList] using hx
    exact ⟨key, by rw [Node.writes, hk]; exact List.mem_cons_self, hname⟩
  case unsupported text =>
    obtain ⟨rfl, -⟩ := unsupported_ok h
    simp [definesList]

/-- The closing of ports defines at most their post-step variables. -/
theorem defines_closePorts (hc : T.Canonical c.model) : ∀ {ports : List PortId}
    {p p' : Progress} {cs : List Term}, c.closePorts s ports p = .ok cs p' →
      p'.table.Extends T →
        (definesList cs).Sublist (ports.map fun q => (c.model.postStep q).name)
  | [], p, p', cs, h, _ => by
    obtain ⟨rfl, -⟩ := Stateful.pure_ok.1 h
    exact .slnil
  | q :: ports, p, p', cs, h, hin => by
    obtain ⟨current, q1, latest, q2, first, others, hcurrent, hlatest, hclosing, hothers, rfl⟩ :=
      closePorts_ok h
    have hgrew := (adds_readKey s _ hlatest).trans (adds_closePorts s ports hothers)
    obtain rfl := hc.postStep (hin.kept (hgrew.table.kept (port_ok hcurrent)))
    have hothers := defines_closePorts hc hothers hin
    rw [Term.definesList_append, List.map_cons]
    unfold closing at hclosing
    split at hclosing
    · cases hclosing
      exact hothers.cons _
    · obtain ⟨t, ht, rfl⟩ := Attempt.map_ok.1 hclosing
      rw [definesList, Term.defines_mkEq (checked_eq_ok.1 ht)]
      exact hothers.cons_cons _

/-- A return defines at most the post-step variable of the target. -/
theorem defines_returned (hc : T.Canonical c.model) {value : Option Node} {cs : List Term}
    (h : c.returned s value p = .ok cs p') (hin : p'.table.Extends T) :
    ∃ target, c.target = some target ∧
      (definesList cs).Sublist [(c.model.postStep target).name] := by
  obtain ⟨target, n, handle, q, o, htarget, rfl, hhandle, ho, hcs⟩ := returned_ok h
  refine ⟨target, htarget, ?_⟩
  rcases hcs with ⟨-, rfl⟩ | ⟨-, equation, heq, rfl⟩
  · exact List.nil_sublist _
  · obtain rfl := hc.postStep (hin.kept ((adds_expr s n _ ho).table.kept (port_ok hhandle)))
    rw [definesList, defines_equate heq]
    exact List.Sublist.refl _

theorem names_postStep (c : Context) (q : PortId) :
    c.model.Names (c.model.postStep q).name (c.symbolKey (.port q)) .current :=
  ⟨rfl, by simp [Version.prior]⟩

theorem postStep_injective (m : Model) : Function.Injective fun q => (m.postStep q).name := by
  intro q q' h
  have hq : m.Names (m.postStep q).name (.port q) .current := ⟨rfl, by simp [Version.prior]⟩
  have hq' : m.Names (m.postStep q').name (.port q') .current := ⟨rfl, by simp [Version.prior]⟩
  rw [← show (m.postStep q).name = (m.postStep q').name from h] at hq'
  exact SymbolKey.port.inj (hq.unique hq').1

/-! ### Fresh paths -/

theorem adds_trace : (fl : Flow) → (s : Scope) → c.Adds (c.trace fl s)
  | .done, s => .bind (adds_closePorts s _) fun _ => .pure _
  | .step statement rest, s =>
    .bind (adds_statement s statement) fun _ => .bind (adds_trace rest _) fun _ => .pure _
  | .ret value, s =>
    .bind (adds_closePorts s _) fun _ => .bind (adds_returned s value) fun _ => .pure _
  | .fork test _ yes no, s =>
    .bind (adds_term s _ test) fun _ => .bind (adds_trace yes _) fun _ =>
      .bind (adds_trace no _) fun _ => .pure _

/-- A path on which no symbol is defined by two different writes, and all symbols are made after
given numbers of writes. -/
structure FreshPath (c : Context) (count : VarKey → Nat) (path : List (List Term)) : Prop where
  fresh : FreshWrites path
  symbols {w : List Term} {x : String} : w ∈ path → x ∈ definesList w → c.FreshSymbol count x

/-- The end of a path that defines post-step variables of different ports is fresh. -/
theorem freshPath_ends {ends : List Term} (ports : List PortId) (count : VarKey → Nat)
    (h : (definesList ends).Sublist (ports.map fun q => (c.model.postStep q).name))
    (hports : ports.Nodup) (hown : ∀ q ∈ ports, q ∈ c.writtenPorts) :
    c.FreshPath count (ends.map fun t => [t]) := by
  have hnodup : (definesList ends).Nodup := h.nodup (hports.map (postStep_injective c.model))
  have hsub : ∀ {ts : List Term} {t : Term}, t ∈ ts → definesList [t] ⊆ definesList ts := by
    intro ts t ht
    obtain ⟨l, r, rfl⟩ := List.append_of_mem ht
    rw [Term.definesList_append]
    intro x hx
    simp only [definesList, List.append_nil, List.mem_append] at hx ⊢
    exact .inr (.inl hx)
  constructor
  · clear h
    induction ends with
    | nil => exact .nil
    | cons t ends ih =>
      rw [definesList, List.nodup_append] at hnodup
      refine List.pairwise_cons.2 ⟨List.forall_mem_map.2 fun t' ht' x hx hx' => ?_,
        ih hnodup.2.1⟩
      rw [definesList, definesList, List.append_nil] at hx
      exact hnodup.2.2 x hx x (hsub ht' hx') rfl
  · intro w x hw hx
    obtain ⟨t, ht, rfl⟩ := List.mem_map.1 hw
    obtain ⟨q, hq, rfl⟩ := List.mem_map.1 (h.subset (hsub ht hx))
    exact ⟨.port q, .current, names_postStep c q, hown q hq, .inr ⟨rfl, q, rfl⟩⟩

/-- The end of a path with a return is fresh: the ports that are closed are not the target. -/
theorem freshPath_ret {closed written : List Term} {target : PortId} (count : VarKey → Nat)
    (htarget : c.target = some target) (hown : target ∈ c.writtenPorts)
    (hclosed : (definesList closed).Sublist
      ((c.writtenPorts.toList.filter fun q => some q ≠ c.target).map fun q =>
        (c.model.postStep q).name))
    (hwritten : (definesList written).Sublist [(c.model.postStep target).name]) :
    c.FreshPath count ((closed ++ written).map fun t => [t]) := by
  refine freshPath_ends ((c.writtenPorts.toList.filter fun q => some q ≠ c.target) ++ [target])
    count ?_ ?_ fun q hq => ?_
  · rw [Term.definesList_append, List.map_append]
    exact hclosed.append hwritten
  · rw [List.nodup_append]
    refine ⟨c.writtenPorts.nodup.filter _, List.nodup_singleton _, ?_⟩
    rintro q hq _ hq' rfl
    rw [List.mem_singleton] at hq'
    have hne := (List.mem_filter.1 hq).2
    simp [hq', htarget] at hne
  · rcases List.mem_append.1 hq with hq | hq
    · exact (List.mem_filter.1 hq).1
    · rw [List.mem_singleton.1 hq]
      exact hown

/-- A write of the next versions of some names is fresh before a path that makes later ones. -/
theorem FreshPath.cons {count count' : VarKey → Nat} {keys : OrderedSet VarKey} {w : List Term}
    {path : List (List Term)} (hpath : c.FreshPath count' path)
    (hcount : ∀ key, count' key = count key + if key ∈ keys then 1 else 0)
    (hown : ∀ key ∈ keys, c.Own key)
    (hw : ∀ x ∈ definesList w, ∃ key ∈ keys,
      c.model.Names x (c.symbolKey key) (.index (count key + 1))) :
    c.FreshPath count (w :: path) := by
  refine ⟨List.pairwise_cons.2 ⟨fun w' hw' x hx hx' => ?_, hpath.fresh⟩, fun {w' x} hw' hx => ?_⟩
  · -- a later write of the same name has a higher version
    obtain ⟨key, hkey, hname⟩ := hw x hx
    obtain ⟨key', v, hname', -, hv⟩ := hpath.symbols hw' hx'
    obtain ⟨hk, rfl⟩ := hname.unique hname'
    obtain rfl := symbolKey_injective hk
    rcases hv with ⟨k, hv, hlt⟩ | ⟨hv, -⟩
    · rw [hcount, if_pos hkey] at hlt
      have hk := Version.index.inj hv
      omega
    · cases hv
  · rcases List.mem_cons.1 hw' with rfl | hw'
    · obtain ⟨key, hkey, hname⟩ := hw x hx
      exact ⟨key, _, hname, hown key hkey, .inl ⟨_, rfl, Nat.lt_succ_self _⟩⟩
    · obtain ⟨key, v, hname, hkey, hv⟩ := hpath.symbols hw' hx
      refine ⟨key, v, hname, hkey, hv.imp_left fun ⟨k, hk, hlt⟩ => ⟨k, hk, ?_⟩⟩
      rw [hcount] at hlt
      exact Nat.lt_of_le_of_lt (Nat.le_add_right _ _) hlt

/-- **On every path no symbol is defined by two different writes.** -/
theorem trace_fresh (hc : T.Canonical c.model) : (fl : Flow) → ∀ {s : Scope} {p p' : Progress}
    {tr : Trace}, c.trace fl s p = .ok tr p' → p'.table.Extends T → c.At s fl.straight →
      c.Owns fl → ∀ path ∈ tr.paths, c.FreshPath s.previous path
  | .done, s, p, p', tr, h, hin, _, _ => by
    obtain ⟨closed, q, hclosed, h⟩ := Stateful.bind_ok.1 h
    obtain ⟨rfl, rfl⟩ := Stateful.pure_ok.1 h
    simp only [Trace.paths, List.forall_mem_singleton]
    exact freshPath_ends _ _ (defines_closePorts hc hclosed hin) c.writtenPorts.nodup fun _ hq => hq
  | .step n rest, s, p, p', tr, h, hin, hat, hown => by
    obtain ⟨here, q, hhere, h⟩ := Stateful.bind_ok.1 h
    obtain ⟨there, q1, hthere, h⟩ := Stateful.bind_ok.1 h
    obtain ⟨rfl, rfl⟩ := Stateful.pure_ok.1 h
    have hext := (adds_trace rest _ hthere).table.toExtends.trans hin
    have hdefines := defines_statement hhere hext hc
    simp only [← mem_writtenKeys] at hdefines
    rw [Trace.paths, List.forall_mem_map]
    exact fun path hpath => (trace_fresh hc rest hthere hin hat.next hown.2 path hpath).cons
      hat.previous_next (fun key hkey => hown.1 key (mem_writtenKeys.1 hkey)) hdefines
  | .ret value, s, p, p', tr, h, hin, _, hown => by
    obtain ⟨closed, q, hclosed, h⟩ := Stateful.bind_ok.1 h
    obtain ⟨written, q1, hwritten, h⟩ := Stateful.bind_ok.1 h
    obtain ⟨rfl, rfl⟩ := Stateful.pure_ok.1 h
    obtain ⟨target, htarget, hret⟩ := defines_returned hc hwritten hin
    have hclose := defines_closePorts hc hclosed
      ((adds_returned s value hwritten).table.toExtends.trans hin)
    simp only [Trace.paths, List.forall_mem_singleton]
    exact freshPath_ret _ htarget (hown target htarget) hclose hret
  | .fork test whole yes no, s, p, p', tr, h, hin, _, hown => by
    obtain ⟨cond, p1, -, h⟩ := Stateful.bind_ok.1 h
    obtain ⟨yes', p2, hyes, h⟩ := Stateful.bind_ok.1 h
    obtain ⟨no', p3, hno, h⟩ := Stateful.bind_ok.1 h
    obtain ⟨rfl, rfl⟩ := Stateful.pure_ok.1 h
    have hext := (adds_trace no _ hno).table.toExtends.trans hin
    rw [Trace.paths, List.forall_mem_append]
    constructor
    · have hfresh := trace_fresh hc yes hyes hext (at_scope _ _) hown.1
      rwa [previous_scope_versions] at hfresh
    · have hfresh := trace_fresh hc no hno hin (at_scope _ _) hown.2
      rwa [previous_scope_versions] at hfresh

end Context

end HybridStep
