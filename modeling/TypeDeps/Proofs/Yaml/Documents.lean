import TypeDeps.Yaml.Stream

/-!
# Documents without names

What the tokens of a block mapping of scalars and of one list mean. Events and items are known
here but for their marks, which nothing depends on: a phase of reading goes over a group of
tokens into the next one, and the groups are put together. Without names and aliases every event
is an item.
-/
namespace TypeDeps.Yaml

variable {ks ks' : List TokenKind} {is is' : List ItemKind} {φ φ' φ'' : Phase}
  {k v : List Char} {p q : Bool} {hs : Handles}

/-- The item that an event without a name stands for. -/
def EventKind.item? : EventKind → Option ItemKind
  | .alias _ => none
  | .scalar p text plain => if p.anchor?.isNone then some (.scalar p.tag? text plain) else none
  | .sequenceStart p => if p.anchor?.isNone then some (.sequence p.tag?) else none
  | .mappingStart p => if p.anchor?.isNone then some (.mapping p.tag?) else none
  | .sequenceEnd | .mappingEnd => some .close

/-- These events are items of these kinds. -/
def Itemize (es : List Event) (is : List ItemKind) : Prop :=
  es.map (fun e => e.kind.item?) = is.map some

/-! ## Groups of tokens -/

/-- One more token, with the events of it in front of those found so far. -/
def Phase.advance (found : List Event × Phase) (t : Token) : List Event × Phase :=
  ((Phase.step t found.2).1.reverse ++ found.1, (Phase.step t found.2).2)

theorem events_eq (ts : List Token) :
    events ts = ((ts.foldl Phase.advance ([], .start)).1.reverse,
      (ts.foldl Phase.advance ([], .start)).2.ending) := rfl

/-- Tokens of these kinds lead from one phase to another and give items of these kinds. -/
def Leads (φ : Phase) (ks : List TokenKind) (is : List ItemKind) (φ' : Phase) : Prop :=
  ∀ ts : List Token, ts.map Token.kind = ks → ∀ found, ∃ new : List Event,
    ts.foldl Phase.advance (found, φ) = (new.reverse ++ found, φ') ∧ Itemize new is

theorem Leads.append (h : Leads φ ks is φ') (h' : Leads φ' ks' is' φ'') :
    Leads φ (ks ++ ks') (is ++ is') φ'' := by
  intro ts hts found
  obtain ⟨ts₁, ts₂, rfl, h₁, h₂⟩ := List.map_eq_append_iff.mp hts
  obtain ⟨new₁, hnew₁, his₁⟩ := h ts₁ h₁ found
  obtain ⟨new₂, hnew₂, his₂⟩ := h' ts₂ h₂ (new₁.reverse ++ found)
  refine ⟨new₁ ++ new₂, by rw [List.foldl_append, hnew₁, hnew₂]; simp, ?_⟩
  rw [Itemize, List.map_append, List.map_append, his₁, his₂]

theorem leads_nil (φ : Phase) : Leads φ [] [] φ := fun ts hts found =>
  ⟨[], by rw [List.map_eq_nil_iff.mp hts]; rfl, rfl⟩

theorem leads_mapping : Leads .start [.blockMappingStart] [.mapping none]
    (.document Handles.standard [.blockKey]) := by
  intro ts hts found
  match ts, hts with
  | [⟨_, m, _⟩], rfl => exact ⟨[⟨_, m⟩], rfl, rfl⟩

theorem leads_member : Leads (.document hs [.blockKey])
    [.key, .scalar k p, .value, .scalar v q] [.scalar none k p, .scalar none v q]
    (.document hs [.blockKey]) := by
  intro ts hts found
  match ts, hts with
  | [⟨_, _, _⟩, ⟨_, m, _⟩, ⟨_, _, _⟩, ⟨_, m', _⟩], rfl =>
    exact ⟨[⟨_, m⟩, ⟨_, m'⟩], rfl, rfl⟩

theorem leads_emptyList : Leads (.document hs [.blockKey])
    [.key, .scalar k p, .value, .flowSequenceStart, .flowSequenceEnd]
    [.scalar none k p, .sequence none, .close] (.document hs [.blockKey]) := by
  intro ts hts found
  match ts, hts with
  | [⟨_, _, _⟩, ⟨_, m, _⟩, ⟨_, _, _⟩, ⟨_, m₁, _⟩, ⟨_, m₂, _⟩], rfl =>
    exact ⟨[⟨_, m⟩, ⟨_, m₁⟩, ⟨_, m₂⟩], rfl, rfl⟩

/-- The first item of a list that is not indented starts the list. -/
theorem leads_firstItem : Leads (.document hs [.blockKey])
    [.key, .scalar k p, .value, .blockEntry, .scalar v q]
    [.scalar none k p, .sequence none, .scalar none v q]
    (.document hs [.indentlessSequence, .blockKey]) := by
  intro ts hts found
  match ts, hts with
  | [⟨_, _, _⟩, ⟨_, m, _⟩, ⟨_, _, _⟩, ⟨_, m₁, _⟩, ⟨_, m₂, _⟩], rfl =>
    exact ⟨[⟨_, m⟩, ⟨_, m₁⟩, ⟨_, m₂⟩], rfl, rfl⟩

theorem leads_item : Leads (.document hs [.indentlessSequence, .blockKey])
    [.blockEntry, .scalar v q] [.scalar none v q]
    (.document hs [.indentlessSequence, .blockKey]) := by
  intro ts hts found
  match ts, hts with
  | [⟨_, _, _⟩, ⟨_, m, _⟩], rfl => exact ⟨[⟨_, m⟩], rfl, rfl⟩

theorem leads_items {α : Type} (items : List α) (text : α → List Char) (isPlain : α → Bool) :
    Leads (.document hs [.indentlessSequence, .blockKey])
      (items.flatMap fun a => [.blockEntry, .scalar (text a) (isPlain a)])
      (items.map fun a => .scalar none (text a) (isPlain a))
      (.document hs [.indentlessSequence, .blockKey]) := by
  induction items with
  | nil => exact leads_nil _
  | cons a items ih => exact leads_item.append ih

theorem leads_end : Leads (.document hs [.blockKey]) [.blockEnd, .streamEnd] [.close]
    .finished := by
  intro ts hts found
  match ts, hts with
  | [⟨_, m, _⟩, ⟨_, _, _⟩], rfl => exact ⟨[⟨_, m⟩], rfl, rfl⟩

theorem leads_listEnd : Leads (.document hs [.indentlessSequence, .blockKey])
    [.blockEnd, .streamEnd] [.close, .close] .finished := by
  intro ts hts found
  match ts, hts with
  | [⟨_, m, _⟩, ⟨_, _, _⟩], rfl => exact ⟨[⟨_, m⟩, ⟨_, m⟩], rfl, rfl⟩

/-! ## The stream -/

namespace Stream

theorem step?_of_item {n : Naming} {e : Event} {i : ItemKind} (h : e.kind.item? = some i) :
    n.step? e = some (n.add ⟨i, e.mark⟩) := by
  match e, h with
  | ⟨.sequenceEnd, _⟩, rfl | ⟨.mappingEnd, _⟩, rfl => rfl
  | ⟨.scalar ⟨none, _⟩ _ _, _⟩, rfl => rfl
  | ⟨.sequenceStart ⟨none, _⟩, _⟩, rfl | ⟨.mappingStart ⟨none, _⟩, _⟩, rfl => rfl

theorem run_of_itemize {n : Naming} {es : List Event} (h : Itemize es is) :
    (n.run es).2 = none ∧ ∃ items : List Item, items.map Item.kind = is ∧
      (n.run es).1.items = items.reverse ++ n.items := by
  induction es generalizing n is with
  | nil =>
    obtain rfl : is = [] := List.map_eq_nil_iff.mp h.symm
    exact ⟨rfl, [], rfl, rfl⟩
  | cons e es ih =>
    obtain ⟨i, is, rfl, hi, his⟩ := List.map_eq_cons_iff.mp h.symm
    obtain ⟨hnone, items, hitems, hrun⟩ := ih (n := n.add ⟨i, e.mark⟩) his.symm
    simp only [Naming.run, step?_of_item hi.symm]
    exact ⟨hnone, ⟨i, e.mark⟩ :: items, by simp [hitems], by rw [hrun]; simp [Naming.add]⟩

/-- A stream that is one document without names. -/
theorem read_of_leads {cs : List Char} (hks : (tokens cs).map Token.kind = ks)
    (h : Leads .start ks is .finished) (hne : is ≠ []) :
    (read cs).items.map Item.kind = is ∧ (read cs).defect? = none := by
  obtain ⟨new, hnew, his⟩ := h (tokens cs) hks []
  have hevents : events (tokens cs) = (new, .whole) := by
    rw [events_eq, hnew]
    simp [Phase.ending]
  obtain ⟨hnone, items, hkinds, hrun⟩ := run_of_itemize (n := ⟨[], [], 0, []⟩) his
  have hnew : new.isEmpty = false := by
    cases new with
    | nil => exact (hne (List.map_eq_nil_iff.mp his.symm)).elim
    | cons e es => rfl
  simp [read, hevents, ofEvents, hnew, hrun, hnone, hkinds]

end Stream

end TypeDeps.Yaml
