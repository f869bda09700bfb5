import HybridStep.Proofs.Step.Asking

/-! # The cache of bodies is not seen

A run of readings, orders and steps on one cache is a run of readings: an order and a step read the
texts that they ask for. So what every use gives does not depend on the cache, the number of
readings is the number of hits and misses, and the cache holds the texts that could be read since it
was last cleared. -/

namespace HybridStep

open BodyCache (TextsApart)

/-! ### Calls on a cache -/

/-- A call on a cache. -/
inductive CacheCall where
  | parse (text : String)
  | clear

namespace CacheCall

/-- The cache after a call. -/
def replay (c : BodyCache) : CacheCall → BodyCache
  | parse text => (c.read text).2
  | clear => c.clear

/-- The text of a call that reads one. -/
def text? : CacheCall → Option String
  | parse text => some text
  | clear => none

/-- The texts that are read. -/
def texts (calls : List CacheCall) : List String := calls.filterMap text?

/-- The texts that a cache holds after a call. -/
def keep (held : List String) : CacheCall → List String
  | parse text =>
    match UpdateFunction.read text with
    | .ok _ => held ++ [text]
    | .error _ => held
  | clear => []

/-- The texts that could be read since the cache was last cleared. -/
def kept (calls : List CacheCall) : List String := calls.foldl keep []

variable {Used : String → Prop} {c : BodyCache} {calls : List CacheCall} {call : CacheCall}
variable {text : String} {held : List String}

theorem texts_append (calls rest : List CacheCall) :
    texts (calls ++ rest) = texts calls ++ texts rest := List.filterMap_append

theorem texts_parses (texts : List String) : CacheCall.texts (texts.map .parse) = texts := by
  simp [CacheCall.texts, text?, Function.comp_def]

/-- A text that cannot be read leaves no entry. -/
theorem functions_of_read_error {err : BodyError} (h : c.answer text = .error err) :
    (c.read text).2.functions = c.functions := by
  rw [BodyCache.answer_eq] at h
  unfold BodyCache.read
  cases hget : c.functions.get? (BodyCache.key text) with
  | some f => rfl
  | none =>
    rw [hget] at h
    simp only [h]

/-- A text that can be read has an entry afterwards, and no other one is added. -/
theorem mem_keys_read {k : String} : k ∈ (c.read text).2.functions.keys ↔
    k ∈ c.functions.keys ∨ (∃ f, c.answer text = .ok f) ∧ BodyCache.key text = k := by
  simp only [BodyCache.answer_eq]
  unfold BodyCache.read
  cases hget : c.functions.get? (BodyCache.key text) with
  | some f =>
    have hkey : BodyCache.key text ∈ c.functions.keys :=
      OrderedMap.isSome_get?.1 (by rw [hget]; rfl)
    simp only [Except.ok.injEq, exists_eq', true_and]
    exact ⟨.inl, fun h => h.elim id fun h => h ▸ hkey⟩
  | none =>
    cases UpdateFunction.read text with
    | error err => simp
    | ok f =>
      simp only [OrderedMap.keys_insert, OrderedMap.get?_eq_none_iff.1 hget, if_false,
        List.mem_append, List.mem_singleton, Except.ok.injEq, exists_eq', true_and, eq_comm]

/-- Every reading is a hit or a miss. -/
theorem count_read (c : BodyCache) (text : String) :
    (c.read text).2.hits + (c.read text).2.misses = c.hits + c.misses + 1 := by
  unfold BodyCache.read
  split
  · simp only
    omega
  · split <;> simp only <;> omega

theorem count_replay : ∀ (calls : List CacheCall) (c : BodyCache),
    (calls.foldl replay c).hits + (calls.foldl replay c).misses =
      c.hits + c.misses + (texts calls).length
  | [], _ => rfl
  | .parse text :: calls, c => by
    rw [List.foldl_cons, count_replay calls, replay, count_read]
    simp only [texts, text?, List.filterMap_cons, List.length_cons]
    omega
  | .clear :: calls, c => by
    rw [List.foldl_cons, count_replay calls]
    rfl

theorem faithful_replay (hU : TextsApart Used) : ∀ (calls : List CacheCall) {c : BodyCache},
    c.Faithful Used → (∀ text ∈ texts calls, Used text) → (calls.foldl replay c).Faithful Used
  | [], _, h, _ => h
  | .parse text :: calls, c, h, ht => by
    have ht : ∀ t ∈ text :: texts calls, Used t := ht
    rw [List.forall_mem_cons] at ht
    exact faithful_replay hU calls (h.read hU ht.1) ht.2
  | .clear :: calls, c, _, ht => faithful_replay hU calls (BodyCache.faithful_empty _ _) ht

/-- A cache has entries for some texts and no others. -/
def Holds (c : BodyCache) (held : List String) : Prop :=
  ∀ k, k ∈ c.functions.keys ↔ ∃ text ∈ held, BodyCache.key text = k

/-- What a call does to the entries. -/
theorem Holds.replay (h : Holds c held) (hc : c.Faithful Used)
    (ht : ∀ text ∈ call.text?, Used text) : Holds (call.replay c) (keep held call) := fun k => by
  cases call with
  | clear => simp [CacheCall.replay, keep, BodyCache.clear, OrderedMap.keys, OrderedMap.empty]
  | parse text =>
    rw [CacheCall.replay, mem_keys_read, hc text (ht text rfl), h k, keep]
    cases UpdateFunction.read text with
    | error err => simp
    | ok f => simp [or_and_right, exists_or]

theorem holds_replay (hU : TextsApart Used) : ∀ (calls : List CacheCall) {c : BodyCache}
    {held : List String}, Holds c held → c.Faithful Used → (∀ text ∈ texts calls, Used text) →
      Holds (calls.foldl CacheCall.replay c) (calls.foldl keep held)
  | [], _, _, h, _, _ => h
  | call :: calls, c, held, h, hc, ht => by
    have hsplit : ∀ text ∈ texts ([call] ++ calls), Used text := ht
    rw [texts_append, List.forall_mem_append] at hsplit
    have hcall : ∀ text ∈ call.text?, Used text := fun text htext =>
      hsplit.1 text (List.mem_filterMap.2 ⟨call, List.mem_singleton_self _, htext⟩)
    exact holds_replay hU calls (h.replay hc hcall) (faithful_replay hU [call] hc hsplit.1) hsplit.2

theorem mem_keep (h : text ∈ keep held call) : text ∈ held ∨ text ∈ call.text? := by
  cases call with
  | clear => cases h
  | parse text' =>
    rw [keep] at h
    cases hread : UpdateFunction.read text' with
    | error err =>
      rw [hread] at h
      exact .inl h
    | ok f =>
      rw [hread] at h
      exact (List.mem_append.1 h).imp_right fun h => congrArg some (List.mem_singleton.1 h).symm

theorem mem_kept (h : text ∈ kept calls) : text ∈ texts calls := by
  induction calls using List.reverseRecOn with
  | nil => cases h
  | append_singleton calls call ih =>
    rw [kept, List.foldl_append] at h
    rw [texts_append, List.mem_append]
    exact (mem_keep h).imp ih fun h => List.mem_filterMap.2 ⟨call, List.mem_singleton_self _, h⟩

/-- There are as many entries as different texts. -/
theorem Holds.size_eq (h : Holds c held) (hU : TextsApart (· ∈ held)) :
    c.size = held.toFinset.card := by
  have hkeys : c.functions.keys.toFinset = held.toFinset.image BodyCache.key := by
    ext k
    simp [h k]
  calc c.size = c.functions.keys.length := (List.length_map _).symm
    _ = c.functions.keys.toFinset.card := (List.toFinset_card_of_nodup c.functions.nodup).symm
    _ = held.toFinset.card := by
      rw [hkeys, Finset.card_image_of_injOn]
      intro text ht text' ht' hkey
      exact hU text text' (by simpa using ht) (by simpa using ht') hkey

end CacheCall

/-! ### Runs on one cache -/

/-- What a cache is used for. -/
inductive CacheUse where
  | parse (text : String)
  | clear
  | order (m : Model) (e : EntityId)
  | step (m : Model) (options : Options) (e : EntityId) (dt : Option Rat)

namespace CacheUse

/-- The cache after a use. -/
def run (c : BodyCache) : CacheUse → BodyCache
  | parse text => (c.read text).2
  | clear => c.clear
  | order m e => Stateful.final (m.order e c)
  | step m options e dt => Stateful.final (m.step options e dt c)

/-- The calls that a use makes. -/
def calls : CacheUse → List CacheCall
  | parse text => [.parse text]
  | clear => [.clear]
  | order m e => (m.orderTexts e).map .parse
  | step m options e _ => (m.stepTexts options e).map .parse

variable {Used : String → Prop} {c : BodyCache} {x : CacheUse} {uses : List CacheUse}

theorem foldl_parses (texts : List String) (c : BodyCache) :
    (texts.map .parse).foldl CacheCall.replay c = c.readAll texts := List.foldl_map

/-- **A use leaves the cache as its calls do.** -/
theorem run_eq (hU : TextsApart Used) (hc : c.Faithful Used)
    (ht : ∀ text ∈ CacheCall.texts x.calls, Used text) :
    x.run c = x.calls.foldl CacheCall.replay c := by
  cases x with
  | parse text => rfl
  | clear => rfl
  | order m e =>
    rw [calls, CacheCall.texts_parses] at ht
    obtain ⟨r, horder⟩ := Model.asks_order hU ht
    rw [run, calls, foldl_parses, horder.final_eq hc]
  | step m options e dt =>
    rw [calls, CacheCall.texts_parses] at ht
    obtain ⟨r, hstep⟩ := Model.asks_step hU dt ht
    rw [run, calls, foldl_parses, hstep.final_eq hc]

theorem foldl_run_eq (hU : TextsApart Used) : ∀ (uses : List CacheUse) {c : BodyCache},
    c.Faithful Used → (∀ text ∈ CacheCall.texts (uses.flatMap calls), Used text) →
      uses.foldl run c = (uses.flatMap calls).foldl CacheCall.replay c
  | [], _, _, _ => rfl
  | x :: uses, c, hc, ht => by
    rw [List.flatMap_cons, CacheCall.texts_append, List.forall_mem_append] at ht
    rw [List.foldl_cons, List.flatMap_cons, List.foldl_append, run_eq hU hc ht.1]
    exact foldl_run_eq hU uses (CacheCall.faithful_replay hU x.calls hc ht.1) ht.2

/-- What some uses of one cache, which is empty at first, do. -/
structure Transparent (uses : List CacheUse) : Prop where
  /-- The cache that they leave is the one that their calls leave. -/
  replay : uses.foldl run {} = (uses.flatMap calls).foldl CacheCall.replay {}
  /-- At every moment the hits and misses are the calls that read a text so far. -/
  counted {before after : List CacheCall} : uses.flatMap calls = before ++ after →
    (before.foldl CacheCall.replay {}).hits + (before.foldl CacheCall.replay {}).misses =
      (CacheCall.texts before).length
  /-- At every moment the entries are the different texts that could be read since the cache was
  last cleared. -/
  sized {before after : List CacheCall} : uses.flatMap calls = before ++ after →
    (before.foldl CacheCall.replay {}).size = (CacheCall.kept before).toFinset.card
  /-- Every call gives the body of its text. -/
  reads {before after : List CacheCall} {text : String} :
    uses.flatMap calls = before ++ .parse text :: after →
      ((before.foldl CacheCall.replay {}).read text).1 = UpdateFunction.read text
  /-- A call that fails adds no entry. -/
  fails {before after : List CacheCall} {text : String} {err : BodyError} :
    uses.flatMap calls = before ++ .parse text :: after → UpdateFunction.read text = .error err →
      ((before.foldl CacheCall.replay {}).read text).2.functions =
        (before.foldl CacheCall.replay {}).functions
  /-- Every order is the one with an empty cache, or fails alike. -/
  order {before after : List CacheUse} {m : Model} {e : EntityId} :
    uses = before ++ .order m e :: after →
      Stateful.outcome (m.order e (before.foldl run {})) = Stateful.outcome (m.order e {})
  /-- Every step gives what it gives with an empty cache, or fails alike. -/
  step {before after : List CacheUse} {m : Model} {options : Options} {e : EntityId}
    {dt : Option Rat} : uses = before ++ .step m options e dt :: after →
      Stateful.outcome (m.step options e dt (before.foldl run {})) =
        Stateful.outcome (m.step options e dt {})

/-- **A cache of bodies is not seen.** If the texts that are read have different digests, then every
call gives what reading the text without a cache gives, and orders and steps are those with an empty
cache. -/
theorem cache_transparent (uses : List CacheUse)
    (h : TextsApart (· ∈ CacheCall.texts (uses.flatMap calls))) : Transparent uses := by
  set Used : String → Prop := (· ∈ CacheCall.texts (uses.flatMap calls))
  have hempty : BodyCache.Faithful Used {} := BodyCache.faithful_empty 0 0
  -- what is read up to a moment is read by the whole run
  have hfirst : ∀ {before after : List CacheCall}, uses.flatMap calls = before ++ after →
      ∀ text ∈ CacheCall.texts before, Used text := by
    intro before after heq text htext
    simp only [Used, heq, CacheCall.texts_append]
    exact List.mem_append_left _ htext
  have hread : ∀ {before after : List CacheCall} {text : String},
      uses.flatMap calls = before ++ .parse text :: after →
        (before.foldl CacheCall.replay {}).answer text = UpdateFunction.read text := by
    intro before after text heq
    have hparsed : uses.flatMap calls = (before ++ [.parse text]) ++ after := by simp [heq]
    have htext : text ∈ CacheCall.texts (before ++ [.parse text]) := by
      simp [CacheCall.texts, CacheCall.text?]
    exact CacheCall.faithful_replay h _ hempty (hfirst heq) text (hfirst hparsed text htext)
  have huse : ∀ {before after : List CacheUse} {x : CacheUse}, uses = before ++ x :: after →
      (before.foldl run {}).Faithful Used ∧ ∀ text ∈ CacheCall.texts x.calls, Used text := by
    intro before after x heq
    have hsplit : uses.flatMap calls =
        (before.flatMap calls ++ x.calls) ++ after.flatMap calls := by simp [heq]
    have htexts := hfirst hsplit
    rw [CacheCall.texts_append, List.forall_mem_append] at htexts
    rw [foldl_run_eq h before hempty htexts.1]
    exact ⟨CacheCall.faithful_replay h _ hempty htexts.1, htexts.2⟩
  refine
    { replay := foldl_run_eq h uses hempty fun text htext => htext
      counted := fun {before after} heq => ?_
      sized := fun {before after} heq => ?_
      reads := hread
      fails := fun heq herr => CacheCall.functions_of_read_error ((hread heq).trans herr)
      order := fun {before after m e} heq => ?_
      step := fun {before after m options e dt} heq => ?_ }
  · rw [CacheCall.count_replay]
    exact Nat.zero_add _
  · have hnone : CacheCall.Holds {} [] := fun k => by
      simp [OrderedMap.keys, OrderedMap.empty]
    refine (CacheCall.holds_replay h before hnone hempty (hfirst heq)).size_eq ?_
    exact h.mono fun text htext => hfirst heq text (CacheCall.mem_kept htext)
  · obtain ⟨hfaithful, htexts⟩ := huse heq
    rw [calls, CacheCall.texts_parses] at htexts
    obtain ⟨r, horder⟩ := Model.asks_order h htexts
    exact horder.outcome_eq_empty hfaithful
  · obtain ⟨hfaithful, htexts⟩ := huse heq
    rw [calls, CacheCall.texts_parses] at htexts
    obtain ⟨r, hstep⟩ := Model.asks_step h dt htexts
    exact hstep.outcome_eq_empty hfaithful

/-- Steps and orders of the tank, between which a text is not read and the cache is cleared. -/
theorem tank_cache_transparent : ∃ m e, tankDefinition.build = .ok (m, e) ∧
    Transparent [.parse "|s| 1", .step m {} e none, .parse "not a function", .order m e, .clear,
      .parse "|s| 1", .order m e] := by
  have h : Attempt.succeeds (fun (m, _) =>
      ∀ text ∈ "|s| 1" :: "not a function" :: m.allTexts,
        ∀ text' ∈ "|s| 1" :: "not a function" :: m.allTexts,
          BodyCache.key text = BodyCache.key text' → text = text') tankDefinition.build := by
    decide +kernel
  obtain ⟨⟨m, e⟩, hbuild, h⟩ := Attempt.exists_of_succeeds h
  refine ⟨m, e, hbuild, cache_transparent _ (TextsApart.mono (fun text text' ht ht' =>
    of_decide_eq_true h text ht text' ht') fun text htext => ?_)⟩
  have hstep : m.stepTexts {} e ⊆ m.allTexts := m.stepTexts_subset e
  have horder := m.orderTexts_subset e
  simp only [List.flatMap_cons, List.flatMap_nil, calls, CacheCall.texts_append,
    CacheCall.texts_parses, List.mem_append] at htext
  simp only [CacheCall.texts, CacheCall.text?, List.filterMap_cons, List.filterMap_nil,
    List.mem_singleton, List.not_mem_nil, false_or, or_false] at htext
  simp only [List.mem_cons]
  rcases htext with rfl | htext | rfl | htext | rfl | htext
  · exact .inl rfl
  · exact .inr (.inr (hstep htext))
  · exact .inr (.inl rfl)
  · exact .inr (.inr (horder htext))
  · exact .inl rfl
  · exact .inr (.inr (horder htext))

end CacheUse

end HybridStep
