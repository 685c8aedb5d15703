import TypeDeps.Proofs.Document.Records
import TypeDeps.Proofs.Document.Runs
import TypeDeps.Proofs.Json.SkippedValue

/-!
# Texts that are read

Wherever a text stands in its place, the reader goes from the state before it to the state
behind it. This is shown from the inside out: strings, lists of names, entries, the list of
entries and the document.
-/
namespace TypeDeps.Document

open Json

theorem Runs.cons {s t s' : State} {b : UInt8} {bs : List UInt8} (h : s.step b = .ok t)
    (hr : Runs t bs s') : Runs s (b :: bs) s' :=
  Reads.cons (t := t) (by rw [h]; rfl) hr

theorem Runs.one {s t : State} {b : UInt8} (h : s.step b = .ok t) : Runs s [b] t := .cons h .nil

theorem runs_blanks {s : State} {ws : List UInt8} (hs : s.betweenTokens) (hw : Blanks ws) :
    Runs s ws s := by
  refine .stay fun b hb => ?_
  rw [State.step_of_betweenTokens hs, if_pos (hw b hb)]
  rfl

/-- A text for a place. Its first byte opens it and cannot be taken for anything else. -/
def Accepts (p : Place) (raw : List UInt8) (s' : State) : Prop :=
  ∃ b rest s, raw = b :: rest ∧ isBlank b = false ∧ b ≠ 0x5D ∧ State.opened? p b = some s ∧
    Runs s rest s'

namespace Accepts

variable {p : Place} {raw : List UInt8} {s' : State}

/-- The text is read from every state that wants the place to be filled. -/
theorem runs (h : Accepts p raw s') {s : State} (hs : s.betweenTokens)
    (hstep : ∀ b, b ≠ 0x5D → s.stepToken b = State.startValue p b) : Runs s raw s' := by
  obtain ⟨b, rest, t, rfl, hblank, hb, hopen, hr⟩ := h
  refine .cons ?_ hr
  rw [State.step_of_betweenTokens hs, if_neg (by simp [hblank]), hstep b hb]
  simp [State.startValue, hopen]

theorem value (h : Accepts p raw s') : Runs (.value p) raw s' := h.runs rfl fun _ _ => rfl

theorem firstItem {l : OpenList} (h : Accepts (.ofList l) raw s') :
    Runs (.listOpened l) raw s' :=
  h.runs rfl fun b hb => by simp [State.stepToken, hb]

theorem nextItem {l : OpenList} (h : Accepts (.ofList l) raw s') : Runs (.listComma l) raw s' :=
  h.runs rfl fun b hb => by simp [State.stepToken, hb]

theorem firstField {o : OpenObject} (h : Accepts p raw s') (hp : Place.ofObject? o = some p) :
    Runs (.arrayOpened o) raw s' :=
  h.runs rfl fun b hb => by simp [State.stepToken, hb, State.startArrayValue, hp]

theorem nextField {o : OpenObject} (h : Accepts p raw s') (hp : Place.ofObject? o = some p) :
    Runs (.arrayComma o) raw s' :=
  h.runs rfl fun b hb => by simp [State.stepToken, hb, State.startArrayValue, hp]

end Accepts

/-! ## Strings -/

theorem runs_content {body bs : List UInt8} (h : Content body bs) {f : StringReader → State}
    (hf : ∀ r b r', r.step b = .more r' → (f r).step b = .ok (f r')) :
    Runs (f .start) body (f ⟨bs.reverse, .plain⟩) := by
  refine (StringReader.reads_content h).lift fun r b r' hr => ?_
  rw [hf r b r' (Step.next?_eq_some.mp hr)]
  rfl

theorem runs_string {t : String} {raw : List UInt8} (h : Spells t raw) {f : StringReader → State}
    {g : String → State}
    (hf : ∀ r b, (f r).step b = State.stepString r b f fun t => .ok (g t)) :
    ∃ rest, raw = 0x22 :: rest ∧ Runs (f .start) rest (g t) := by
  obtain ⟨body, hc, rfl⟩ := h
  refine ⟨body ++ [0x22], rfl, ?_⟩
  have hbody : Runs (f .start) body (f ⟨(bytesOf t).reverse, .plain⟩) :=
    runs_content hc fun r b r' hr => by rw [hf, State.stepString, hr]
  refine hbody.append (Runs.one ?_)
  rw [hf, State.stepString, StringReader.step_quote]

theorem accepts_path {e : OpenEntry} {path : String} {raw : List UInt8} (h : Spells path raw) :
    Accepts (.path e) raw (.ofPath e path) := by
  obtain ⟨rest, rfl, hr⟩ := runs_string h (f := .pathString e) fun _ _ => rfl
  exact ⟨0x22, rest, _, rfl, rfl, by decide, rfl, hr⟩

theorem accepts_name {e : OpenEntry} {l : NameList} {before : List String} {n : String}
    {raw : List UInt8} (h : Spells n raw) :
    Accepts (.name e l before) raw (.listItem (.names e l (n :: before))) := by
  obtain ⟨rest, rfl, hr⟩ := runs_string h (f := .nameString e l before)
    (g := fun n => .listItem (.names e l (n :: before))) fun _ _ => rfl
  exact ⟨0x22, rest, _, rfl, rfl, by decide, rfl, hr⟩

/-! ## Lists -/

/-- The next item's text belongs to the next item. -/
theorem take_succ_of_prefix {α : Type} {R : α → List UInt8 → Prop} {xs : List α}
    {items ys : List (List UInt8)} {y : List UInt8} (h : List.Forall₂ R xs items)
    (hp : ys ++ [y] <+: items) :
    ∃ x, xs.take (ys ++ [y]).length = xs.take ys.length ++ [x] ∧ R x y := by
  obtain ⟨rest, rfl⟩ := hp
  have ht := List.forall₂_take (ys ++ [y]).length h
  rw [List.take_left] at ht
  have hlt : ys.length < xs.length := by
    rw [h.length_eq]
    simp
  rw [List.length_append, List.length_singleton, List.take_succ_eq_append_getElem hlt] at ht ⊢
  obtain ⟨zs, z, hz, -, hr⟩ := forall₂_snoc_left ht
  obtain ⟨-, hz⟩ := List.append_inj' hz rfl
  exact ⟨_, rfl, (List.singleton_inj.mp hz) ▸ hr⟩

def atList (l : OpenList) : Stage → State
  | .opened => .listOpened l
  | .comma => .listComma l
  | .item => .listItem l

/-- The reader stands in a list behind as many items as there are texts. -/
def InList {α : Type} (mk : List α → OpenList) (xs : List α) (st : Stage)
    (ys : List (List UInt8)) (s : State) : Prop :=
  s = atList (mk (xs.take ys.length).reverse) st

theorem accepts_list {α : Type} {R : α → List UInt8 → Prop} {m : List α → OpenList} {p : Place}
    (hopen : State.opened? p 0x5B = some (.listOpened (m [])))
    (hitem : ∀ before x v, R x v →
      Accepts (.ofList (m before)) v (.listItem (m (x :: before))))
    {xs : List α} {raw : List UInt8} (h : ArrayOf R xs raw) :
    Accepts p raw (.ofList (m xs.reverse)) := by
  obtain ⟨items, hi, he⟩ := h
  obtain ⟨st, body, hst, hp, rfl⟩ := he.part
  have hblank : ∀ st ys s b, InList m xs st ys s → isBlank b →
      ∃ t, (s.step b).toOption = some t ∧ InList m xs st ys t := by
    rintro st ys _ b rfl hb
    exact ⟨_, by cases st <;> simp [atList, State.step, hb, Except.toOption], rfl⟩
  have hread : ∀ st ys y s, InList m xs st ys s → st ≠ .item → ys ++ [y] <+: items →
      ∃ t, Runs s y t ∧ InList m xs .item (ys ++ [y]) t := by
    rintro st ys y _ rfl hst hpre
    obtain ⟨x, hx, hr⟩ := take_succ_of_prefix hi hpre
    have haccepts := hitem (xs.take ys.length).reverse x y hr
    refine ⟨_, ?_, rfl⟩
    rw [hx, List.reverse_append]
    cases st with
    | opened => exact haccepts.firstItem
    | comma => exact haccepts.nextItem
    | item => exact absurd rfl hst
  obtain ⟨body, s, rfl, rfl, hr⟩ := Part.reads
    (S := InList m xs) rfl hblank (fun ys s hs => ⟨_, by rw [hs]; rfl, rfl⟩) hread hp
    List.prefix_rfl
  have hclose : Runs (atList (m (xs.take items.length).reverse) st) [0x5D]
      (.ofList (m xs.reverse)) := by
    refine Runs.one ?_
    rw [← hi.length_eq, List.take_length]
    cases st with
    | opened => rfl
    | comma => exact absurd rfl hst
    | item => rfl
  exact ⟨0x5B, body ++ [0x5D], _, rfl, rfl, by decide, hopen, hr.append hclose⟩

/-! ## Objects -/

/-- What is left of an entry when only these fields have been read. -/
def OpenEntry.keep (names : List String) (e : OpenEntry) : OpenEntry :=
  { e with draft := ⟨e.draft.path.filter fun _ => "path" ∈ names,
      e.draft.classes.filter fun _ => "classes" ∈ names,
      e.draft.imports.filter fun _ => "imports" ∈ names⟩ }

def OpenObject.keep (names : List String) : OpenObject → OpenObject
  | document form files => document form (files.filter fun _ => "files" ∈ names)
  | entry e => entry (e.keep names)

/-- The object behind these texts of its first members. -/
def OpenObject.behind {α : Type} (o : OpenObject) (ms : List (String × α))
    (ys : List (List UInt8)) : OpenObject :=
  o.keep ((ms.take ys.length).map Prod.fst)

variable {o : OpenObject} {s s' : State} {fields : List Field} {names : List String}

@[simp] theorem keep_form (names : List String) (o : OpenObject) :
    (o.keep names).form = o.form := by
  cases o <;> rfl

theorem filter_const {α : Type} (x : Option α) (p : Bool) :
    (x.filter fun _ => p) = if p then x else none := by
  cases x <;> cases p <;> rfl

theorem keep_of_names (h : ∀ k ∈ o.slots.map Prod.fst, k ∈ names) : o.keep names = o := by
  cases o with
  | document form files =>
    have hfiles : "files" ∈ names := h _ (by simp [OpenObject.slots])
    simp [OpenObject.keep, filter_const, hfiles]
  | entry e =>
    have hpath : "path" ∈ names := h _ (by simp [OpenObject.slots])
    have hclasses : "classes" ∈ names := h _ (by simp [OpenObject.slots])
    have himports : "imports" ∈ names := h _ (by simp [OpenObject.slots])
    simp [OpenObject.keep, OpenEntry.keep, filter_const, hpath, hclasses, himports]

theorem keep_snoc_other {k : String} (hk : k ∉ o.slots.map Prod.fst) :
    o.keep (names ++ [k]) = o.keep names := by
  cases o with
  | document form files =>
    have hfiles : "files" ≠ k := by simpa [OpenObject.slots, eq_comm] using hk
    simp [OpenObject.keep, hfiles]
  | entry e =>
    have hkeys : "path" ≠ k ∧ "classes" ≠ k ∧ "imports" ≠ k := by
      simpa [OpenObject.slots, eq_comm] using hk
    simp [OpenObject.keep, OpenEntry.keep, hkeys]

@[simp] theorem keep_slots_names (names : List String) (o : OpenObject) :
    (o.keep names).slots.map Prod.fst = o.slots.map Prod.fst := by
  cases o <;> rfl

theorem ofKey_other {k : String} (hk : k ∉ o.slots.map Prod.fst) :
    State.ofKey o k = .colon o none := by
  cases o with
  | document form files =>
    have : k ≠ "files" := by simpa [OpenObject.slots] using hk
    simp [State.ofKey, this]
  | entry e => simp [State.ofKey, ofKey?_eq_none_iff.mpr hk]

/-- The reader stands in an object with names. A number behind a key may still be open. -/
def InNamed (o : OpenObject) : Stage → State → Prop
  | .opened, s => s = .objectOpened o
  | .comma, s => s = .objectComma o
  | .item, s => s = .objectValue o ∨ ∃ n, n.canEnd ∧ s = .skipping o ⟨[], .number n⟩

theorem InNamed.step_eq {b : UInt8} (h : InNamed o .item s)
    (hb : isBlank b ∨ b = 0x2C ∨ b = 0x7D) : s.step b = (State.objectValue o).step b := by
  rcases h with rfl | ⟨n, hn, rfl⟩
  · rfl
  · have hp : n.step b = .passed () :=
      NumberSkipper.step_of_canEnd hn (by rcases hb with h | h | h <;> simp [h])
    simp [State.step, State.stepToken, Skipper.step, hp]

theorem runs_skipped {v : List UInt8} (h : Value v) {ws : List UInt8} (hw : Blanks ws) :
    ∃ s, InNamed o .item s ∧ Runs (.skipping o .start) (ws ++ v) s := by
  have hlift : ∀ {k k' : Skipper} {bs : List UInt8}, Skipper.Skips k bs k' →
      Runs (.skipping o k) bs (.skipping o k') := by
    intro k k' bs hk
    refine hk.lift (f := State.skipping o) fun k b k' hstep => ?_
    rw [State.step, Step.next?_eq_some.mp hstep]
    rfl
  have hblanks : Skipper.Skips .start ws .start :=
    Skipper.skips_blanks hw fun b hb => by
      simp [Skipper.start, Skipper.step, Skipper.blankOr, hb]
  obtain ⟨b, rest, k, rfl, hb, -, hstart, hf⟩ := Skipper.starts_value h []
  have hfirst : Skipper.Skips .start [b] k := by
    refine .one ?_
    simp [Skipper.start, Skipper.step, Skipper.blankOr, hb, hstart]
  have hbefore := (hlift hblanks).append (hlift hfirst)
  rcases hf with ⟨front, c, k', rfl, hr, hend⟩ | ⟨n, hn, hr⟩
  · refine ⟨.objectValue o, .inl rfl, ?_⟩
    have hlast : Runs (.skipping o k') [c] (.objectValue o) :=
      Runs.one (by simp [State.step, hend, Skipper.ended])
    simpa using (hbefore.append (hlift hr)).append hlast
  · refine ⟨.skipping o ⟨[], .number n⟩, .inr ⟨n, hn, rfl⟩, ?_⟩
    simpa using hbefore.append (hlift hr)

/-- Everything of an object can be read: each field behind its key, whatever has been read
before, or as the next value of an array, and in the end the object can be closed. -/
structure Readable (o : OpenObject) (fields : List Field) (s' : State) : Prop where
  slots : o.slots = fields.map given
  nonempty : fields ≠ []
  field : ∀ names, ∀ f ∈ fields, f.1 ∉ names → ∀ v, f.2 v → ∃ p,
    State.ofKey (o.keep names) f.1 = .colon (o.keep names) (some p) ∧
    Accepts p v (.behindValue (o.keep (names ++ [f.1])))
  next : ∀ before f, before ++ [f] <+: fields → ∀ v, f.2 v → ∃ p,
    Place.ofObject? (o.keep (before.map Prod.fst)) = some p ∧
    Accepts p v (.behindValue (o.keep ((before ++ [f]).map Prod.fst)))
  full : Place.ofObject? o = none
  close : State.ofObject o = .ok s'

theorem Readable.keep_all (h : Readable o fields s') (hn : ∀ f ∈ fields, f.1 ∈ names) :
    o.keep names = o := by
  refine keep_of_names ?_
  rw [h.slots]
  simpa [given] using hn

theorem behindValue_named (h : o.form = .named) : State.behindValue o = .objectValue o := by
  rw [State.behindValue, h]

theorem behindValue_positional (h : o.form = .positional) :
    State.behindValue o = .arrayValue o := by
  rw [State.behindValue, h]

theorem runs_key {name : String} {key : List UInt8} (h : Spells name key) (o : OpenObject) :
    ∃ rest, key = 0x22 :: rest ∧ Runs (.key o .start) rest (.ofKey o name) :=
  runs_string h fun _ _ => rfl

theorem Readable.member (h : Readable o fields s') (hform : o.form = .named)
    {m : String × List UInt8} {x : List UInt8} (hm : MemberText m x)
    (hfield : ∀ f ∈ fields, f.1 = m.1 → m.1 ∉ names ∧ f.2 m.2)
    (hother : m.1 ∉ fields.map Prod.fst → Value m.2) {st : Stage} (hst : st ≠ .item)
    {t : State} (ht : InNamed (o.keep names) st t) :
    ∃ t', Runs t x t' ∧ InNamed (o.keep (names ++ [m.1])) .item t' := by
  obtain ⟨name, v⟩ := m
  obtain ⟨key, hk, ws, ws', hw, hw', rfl⟩ := hm
  obtain ⟨rest, rfl, hkey⟩ := runs_key hk (o.keep names)
  have hquote : Runs t [0x22] (.key (o.keep names) .start) := by
    refine .one ?_
    cases st with
    | opened =>
      obtain rfl : t = _ := ht
      rfl
    | comma =>
      obtain rfl : t = _ := ht
      rfl
    | item => exact absurd rfl hst
  have hcolon : ∀ p, State.ofKey (o.keep names) name = .colon (o.keep names) p →
      Runs t (0x22 :: rest ++ ws) (.colon (o.keep names) p) := by
    intro p hp
    rw [hp] at hkey
    exact (hquote.append hkey).append (runs_blanks rfl hw)
  -- the key alone decides whether the value is read or skipped
  by_cases hmem : ∃ f ∈ fields, f.1 = name
  · obtain ⟨f, hf, rfl⟩ := hmem
    obtain ⟨hnew, hv⟩ := hfield f hf rfl
    obtain ⟨p, hp, ha⟩ := h.field names f hf hnew v hv
    rw [behindValue_named (by simpa using hform)] at ha
    have hvalue : Runs (.colon (o.keep names) (some p)) (0x3A :: ws' ++ v) _ :=
      .cons rfl ((runs_blanks rfl hw').append ha.value)
    exact ⟨_, by simpa using (hcolon _ hp).append hvalue, .inl rfl⟩
  · have hnot : name ∉ fields.map Prod.fst := by simpa using hmem
    have hslots : name ∉ o.slots.map Prod.fst := by
      rw [h.slots]
      simpa [given] using hnot
    obtain ⟨t', ht', hskip⟩ := runs_skipped (o := o.keep names) (hother hnot) hw'
    have hvalue : Runs (.colon (o.keep names) none) (0x3A :: ws' ++ v) t' := .cons rfl hskip
    refine ⟨t', ?_, by rwa [keep_snoc_other hslots]⟩
    simpa using (hcolon _ (ofKey_other (by simpa using hslots))).append hvalue

theorem Sole.mem {ms : List (String × List UInt8)} {name : String} {v : List UInt8}
    (h : Sole ms name v) : (name, v) ∈ ms := by
  have : (name, v) ∈ ms.filter (·.1 = name) := by rw [h]; simp
  exact (List.mem_filter.mp this).1

theorem Sole.eq_of_mem {ms : List (String × List UInt8)} {name : String} {v : List UInt8}
    (h : Sole ms name v) {m : String × List UInt8} (hm : m ∈ ms) (hn : m.1 = name) :
    m = (name, v) := by
  have : m ∈ ms.filter (·.1 = name) := List.mem_filter.mpr ⟨hm, by simpa using hn⟩
  rwa [h, List.mem_singleton] at this

theorem Sole.not_mem_before {before ms : List (String × List UInt8)} {name : String}
    {v : List UInt8} (h : Sole ms name v) {m : String × List UInt8} (hp : before ++ [m] <+: ms)
    (hn : m.1 = name) : name ∉ before.map Prod.fst := by
  obtain ⟨rest, rfl⟩ := hp
  intro hmem
  obtain ⟨m', hm', he⟩ := List.mem_map.mp hmem
  have hlen := congrArg List.length h
  have hpos : 0 < (before.filter (·.1 = name)).length :=
    List.length_pos_of_mem (List.mem_filter.mpr ⟨hm', by simpa using he⟩)
  simp only [List.filter_append, List.filter_cons, hn, decide_true, if_true, List.filter_nil,
    List.length_append, List.length_cons, List.length_nil] at hlen
  omega

/-- The members of an object, one by one. -/
theorem Readable.members (h : Readable o fields s') (hform : o.form = .named)
    {ms : List (String × List UInt8)} {items : List (List UInt8)} {st : Stage}
    {raw : List UInt8} (hp : Part 0x7B st items raw) (hms : List.Forall₂ MemberText ms items)
    (hsole : ∀ f ∈ fields, ∃ v, Sole ms f.1 v ∧ f.2 v)
    (hother : ∀ m ∈ ms, m.1 ∉ fields.map Prod.fst → Value m.2) :
    ∃ body t, raw = 0x7B :: body ∧ InNamed o st t ∧ Runs (.objectOpened (o.keep [])) body t := by
  have hblank : ∀ st ys t b, InNamed (o.behind ms ys) st t → isBlank b →
      ∃ t', (t.step b).toOption = some t' ∧ InNamed (o.behind ms ys) st t' := by
    intro st ys t b ht hb
    cases st with
    | opened =>
      obtain rfl : t = _ := ht
      exact ⟨_, by simp [State.step, hb, Except.toOption], rfl⟩
    | comma =>
      obtain rfl : t = _ := ht
      exact ⟨_, by simp [State.step, hb, Except.toOption], rfl⟩
    | item =>
      refine ⟨.objectValue (o.behind ms ys), ?_, .inl rfl⟩
      rw [ht.step_eq (.inl hb)]
      simp [State.step, hb, Except.toOption]
  have hcomma : ∀ ys t, InNamed (o.behind ms ys) .item t →
      ∃ t', (t.step 0x2C).toOption = some t' ∧ InNamed (o.behind ms ys) .comma t' := by
    intro ys t ht
    refine ⟨.objectComma (o.behind ms ys), ?_, rfl⟩
    rw [ht.step_eq (.inr (.inl rfl))]
    rfl
  have hitem : ∀ st ys y t, InNamed (o.behind ms ys) st t → st ≠ .item → ys ++ [y] <+: items →
      ∃ t', Runs t y t' ∧ InNamed (o.behind ms (ys ++ [y])) .item t' := by
    intro st ys y t ht hst hpre
    obtain ⟨m, hm, hy⟩ := take_succ_of_prefix hms hpre
    have hmpre : ms.take ys.length ++ [m] <+: ms := hm ▸ List.take_prefix _ _
    have hmem : m ∈ ms := hmpre.subset (by simp)
    have hread := h.member hform hy (fun f hf hn => ?_) (hother m hmem) hst ht
    · rwa [OpenObject.behind, hm, List.map_append]
    · obtain ⟨v, hv, hfv⟩ := hsole f hf
      have hvalue : m.2 = v := congrArg Prod.snd (hv.eq_of_mem hmem hn.symm)
      exact ⟨hn ▸ hv.not_mem_before hmpre hn.symm, hvalue ▸ hfv⟩
  obtain ⟨body, t, rfl, ht, hr⟩ := Part.reads (S := fun st ys t => InNamed (o.behind ms ys) st t)
    rfl hblank hcomma hitem hp List.prefix_rfl
  have hall : o.behind ms items = o := by
    refine h.keep_all fun f hf => ?_
    obtain ⟨v, hv, -⟩ := hsole f hf
    rw [← hms.length_eq, List.take_length]
    exact List.mem_map_of_mem hv.mem
  exact ⟨body, t, rfl, hall ▸ ht, hr⟩

/-- The reader stands in an array that replaces an object. -/
def InPositional (o : OpenObject) : Stage → State → Prop
  | .opened, s => s = .arrayOpened o
  | .comma, s => s = .arrayComma o ∨ (s = .surplusComma ∧ Place.ofObject? o = none)
  | .item, s => s = .arrayValue o

theorem Readable.values (h : Readable o fields s') (hform : o.form = .positional)
    {items : List (List UInt8)} {st : Stage} {raw : List UInt8} (hp : Part 0x5B st items raw)
    (hi : List.Forall₂ Prod.snd fields items) :
    ∃ body t, raw = 0x5B :: body ∧ InPositional o st t ∧
      Runs (.arrayOpened (o.keep [])) body t := by
  have hblank : ∀ st ys t b, InPositional (o.behind fields ys) st t → isBlank b →
      ∃ t', (t.step b).toOption = some t' ∧ InPositional (o.behind fields ys) st t' := by
    intro st ys t b ht hb
    refine ⟨t, ?_, ht⟩
    cases st with
    | opened =>
      obtain rfl : t = _ := ht
      simp [State.step, hb, Except.toOption]
    | comma => rcases ht with rfl | ⟨rfl, -⟩ <;> simp [State.step, hb, Except.toOption]
    | item =>
      obtain rfl : t = _ := ht
      simp [State.step, hb, Except.toOption]
  have hcomma : ∀ ys t, InPositional (o.behind fields ys) .item t →
      ∃ t', (t.step 0x2C).toOption = some t' ∧ InPositional (o.behind fields ys) .comma t' := by
    rintro ys t rfl
    cases hplace : Place.ofObject? (o.behind fields ys) with
    | some p =>
      refine ⟨.arrayComma (o.behind fields ys), ?_, .inl rfl⟩
      simp [State.step, isBlank, State.stepToken, State.stepArrayValue, hplace, Except.toOption]
    | none =>
      refine ⟨.surplusComma, ?_, .inr ⟨rfl, hplace⟩⟩
      simp [State.step, isBlank, State.stepToken, State.stepArrayValue, hplace, Except.toOption]
  have hitem : ∀ st ys y t, InPositional (o.behind fields ys) st t → st ≠ .item →
      ys ++ [y] <+: items →
      ∃ t', Runs t y t' ∧ InPositional (o.behind fields (ys ++ [y])) .item t' := by
    intro st ys y t ht hst hpre
    obtain ⟨f, hf, hy⟩ := take_succ_of_prefix hi hpre
    have hfpre : fields.take ys.length ++ [f] <+: fields := hf ▸ List.take_prefix _ _
    obtain ⟨p, hplace, ha⟩ := h.next _ f hfpre y hy
    rw [← hf, behindValue_positional (by simpa using hform)] at ha
    refine ⟨_, ?_, rfl⟩
    cases st with
    | opened =>
      obtain rfl : t = _ := ht
      exact ha.firstField hplace
    | comma =>
      rcases ht with rfl | ⟨-, hnone⟩
      · exact ha.nextField hplace
      · exact absurd (hplace.symm.trans hnone) (by simp)
    | item => exact absurd rfl hst
  obtain ⟨body, t, rfl, ht, hr⟩ := Part.reads
    (S := fun st ys t => InPositional (o.behind fields ys) st t) rfl hblank hcomma hitem hp
    List.prefix_rfl
  have hall : o.behind fields items = o := by
    refine h.keep_all fun f hf => ?_
    rw [← hi.length_eq, List.take_length]
    exact List.mem_map_of_mem hf
  exact ⟨body, t, rfl, hall ▸ ht, hr⟩

/-- A record is read whole, in either form. -/
theorem accepts_record {o : Form → OpenObject} {p : Place} {raw : List UInt8}
    (hform : ∀ form, (o form).form = form)
    (hopen : ∀ b, State.opened? p b = State.openObject b fun form => (o form).keep [])
    (h : ∀ form, Readable (o form) fields s') (hr : RecordText fields raw) :
    Accepts p raw s' := by
  rcases hr with ⟨items, hi, he⟩ | ⟨ms, ⟨items, hm, he⟩, hsole, hother⟩
  · obtain ⟨st, body, hst, hp, rfl⟩ := he.part
    obtain ⟨body, t, rfl, ht, hr⟩ := (h .positional).values (hform _) hp hi
    -- there are fields to read, so the array cannot be closed at once
    have hitem : t = .arrayValue (o .positional) := by
      cases st with
      | opened =>
        obtain ⟨rfl, -⟩ := hp.shape
        exact absurd (List.forall₂_nil_right_iff.mp hi) (h .positional).nonempty
      | comma => exact absurd rfl hst
      | item => exact ht
    have hclose : Runs t [0x5D] s' := by
      refine .one ?_
      rw [hitem]
      simp [State.step, isBlank, State.stepToken, State.stepArrayValue, (h .positional).full,
        (h .positional).close]
    exact ⟨0x5B, body ++ [0x5D], _, rfl, rfl, by decide, by rw [hopen]; rfl, hr.append hclose⟩
  · obtain ⟨st, body, hst, hp, rfl⟩ := he.part
    obtain ⟨body, t, rfl, ht, hr⟩ := (h .named).members (hform _) hp hm hsole hother
    have hclose : Runs t [0x7D] s' := by
      refine .one ?_
      cases st with
      | opened =>
        obtain rfl : t = _ := ht
        simp [State.step, isBlank, State.stepToken, (h .named).close]
      | comma => exact absurd rfl hst
      | item =>
        rw [InNamed.step_eq ht (.inr (.inr rfl))]
        simp [State.step, isBlank, State.stepToken, State.stepObjectValue, (h .named).close]
    exact ⟨0x7B, body ++ [0x7D], _, rfl, rfl, by decide, by rw [hopen]; rfl, hr.append hclose⟩

/-! ## Entries and documents -/

def fieldText (path : String) (classes imports : List String) : Member → List UInt8 → Prop
  | .path => Spells path
  | .names .classes => ArrayOf Spells classes
  | .names .imports => ArrayOf Spells imports

def fullEntry (outer : Form) (before : List SourceFile) (path : String)
    (classes imports : List String) (form : Form) : OpenEntry :=
  ⟨outer, before, form, ⟨some path, some classes, some imports⟩⟩

section Entry

variable {outer form : Form} {before : List SourceFile} {path : String}
  {classes imports : List String} {e : OpenEntry}

theorem isSome_filter_const {α : Type} (x : α) (p : Bool) :
    ((some x).filter fun _ => p).isSome = p := by
  cases p <;> rfl

theorem has_keep (he : e = fullEntry outer before path classes imports form)
    (names : List String) (m : Member) :
    (e.keep names).draft.has m = decide (m.key ∈ names) := by
  subst he
  rcases m with _ | (_ | _) <;> exact isSome_filter_const _ _

theorem ofPath_keep (he : e = fullEntry outer before path classes imports form)
    (names : List String) :
    State.ofPath (e.keep names) path = .behindValue (.entry (e.keep (names ++ ["path"]))) := by
  subst he
  simp [State.ofPath, fullEntry, OpenEntry.keep, filter_const]

theorem ofList_keep (he : e = fullEntry outer before path classes imports form)
    (names : List String) {l : NameList} {ns : List String}
    (hns : ns = match l with | .classes => classes | .imports => imports) :
    State.ofList (.names (e.keep names) l ns.reverse) =
      .behindValue (.entry (e.keep (names ++ [(Member.names l).key]))) := by
  subst he hns
  cases l <;>
    simp [State.ofList, fullEntry, OpenEntry.keep, filter_const, Draft.setNames, Member.key]

theorem accepts_names {e : OpenEntry} {l : NameList} {ns : List String} {v : List UInt8}
    (hv : ArrayOf Spells ns v) : Accepts (.names e l) v (.ofList (.names e l ns.reverse)) :=
  accepts_list (m := .names e l) rfl (fun _ _ _ hn => accepts_name hn) hv

/-- The value of a field takes the reader to the entry with this field. -/
theorem accepts_member (he : e = fullEntry outer before path classes imports form)
    (names : List String) {m : Member} {v : List UInt8} (hv : fieldText path classes imports m v) :
    Accepts (.ofMember (e.keep names) m) v
      (.behindValue (.entry (e.keep (names ++ [m.key])))) := by
  match m, hv with
  | .path, hv =>
    have := accepts_path (e := e.keep names) hv
    rwa [ofPath_keep he] at this
  | .names .classes, hv =>
    have := accepts_names (e := e.keep names) (l := .classes) hv
    rwa [ofList_keep he names rfl] at this
  | .names .imports, hv =>
    have := accepts_names (e := e.keep names) (l := .imports) hv
    rwa [ofList_keep he names rfl] at this

/-- In the fixed order of the members the next one is the first that is missing. -/
theorem find?_member {ms : List Member} {m : Member} (h : ms ++ [m] <+: Member.all) :
    Member.all.find? (fun m => !decide (m.key ∈ ms.map Member.key)) = some m := by
  have hnodup : (Member.all.map Member.key).Nodup := by decide
  obtain ⟨rest, hrest⟩ := h
  rw [← hrest] at hnodup ⊢
  have hbefore : ms.find? (fun m => !decide (m.key ∈ ms.map Member.key)) = none := by
    rw [List.find?_eq_none]
    intro m' hm'
    simpa using ⟨m', hm', rfl⟩
  have hnew : m.key ∉ ms.map Member.key := by
    simp only [List.map_append, List.append_assoc, List.nodup_append] at hnodup
    exact fun hmem => hnodup.2.2 _ hmem _ (by simp) rfl
  rw [List.append_assoc, List.find?_append, hbefore, Option.none_or, List.singleton_append,
    List.find?_cons_of_pos (by simpa using hnew)]

theorem readable_entry (outer : Form) (before : List SourceFile) (path : String)
    (classes imports : List String) (form : Form) :
    Readable (.entry (fullEntry outer before path classes imports form))
      (Member.all.map fun m => (m.key, fieldText path classes imports m))
      (.listItem (.files outer (⟨.ofString path, classes, imports⟩ :: before))) where
  slots := rfl
  nonempty := by simp [Member.all]
  field names f hf hnew v hv := by
    obtain ⟨m, hm, rfl⟩ := List.mem_map.mp hf
    refine ⟨.ofMember _ m, ?_, accepts_member rfl names hv⟩
    have hkey : Member.ofKey? m.key = some m := by
      rcases m with _ | (_ | _) <;> decide
    simp [State.ofKey, OpenObject.keep, hkey, has_keep rfl, hnew]
  next pre f hpre v hv := by
    obtain ⟨ms', hms', he⟩ := List.prefix_map_iff.mp hpre
    obtain ⟨ms, ms₁, rfl, rfl, hone⟩ := List.map_eq_append_iff.mp he.symm
    obtain ⟨m, rfl, rfl⟩ := List.map_eq_singleton_iff.mp hone
    have hnames : (ms.map fun m => (m.key, fieldText path classes imports m)).map Prod.fst =
        ms.map Member.key := by
      simp [Function.comp_def]
    refine ⟨.ofMember ((fullEntry outer before path classes imports form).keep
      (ms.map Member.key)) m, ?_, ?_⟩
    · rw [hnames, OpenObject.keep, Place.ofObject?, Draft.missing?]
      simp only [has_keep rfl, find?_member hms', Option.map_some]
    · rw [List.map_append, hnames]
      exact accepts_member rfl _ hv
  full := rfl
  close := rfl

end Entry

theorem accepts_entry {outer : Form} {before : List SourceFile} {f : SourceFile}
    {raw : List UInt8} (h : EntryText f raw) :
    Accepts (.entry outer before) raw (.listItem (.files outer (f :: before))) := by
  obtain ⟨p, classes, imports⟩ := f
  obtain ⟨path, rfl, hr⟩ := h
  exact accepts_record (fun _ => rfl) (fun _ => rfl)
    (readable_entry outer before path classes imports) hr

theorem accepts_files {form : Form} {files : List SourceFile} {raw : List UInt8}
    (h : ArrayOf EntryText files raw) :
    Accepts (.files form) raw (.behindValue (.document form (some files))) := by
  have := accepts_list (p := .files form) (m := .files form) rfl
    (fun _ _ _ hf => accepts_entry hf) h
  rwa [State.ofList, List.reverse_reverse] at this

theorem readable_document (files : List SourceFile) (form : Form) :
    Readable (.document form (some files)) [("files", ArrayOf EntryText files)]
      (.finished files) where
  slots := rfl
  nonempty := by simp
  field names f hf hnew v hv := by
    obtain rfl := List.mem_singleton.mp hf
    refine ⟨.files form, ?_, ?_⟩
    · simp [State.ofKey, OpenObject.keep, hnew]
    · have haccepts : Accepts (.files form) v _ := accepts_files hv
      simpa [OpenObject.keep, filter_const] using haccepts
  next pre f hpre v hv := by
    obtain ⟨rfl, rfl⟩ : pre = [] ∧ f = ("files", ArrayOf EntryText files) := by
      have hlen := hpre.length_le
      obtain rfl : pre = [] := List.eq_nil_of_length_eq_zero (by simpa using hlen)
      exact ⟨rfl, List.singleton_inj.mp (hpre.eq_of_length rfl)⟩
    exact ⟨.files form, rfl, accepts_files hv⟩
  full := rfl
  close := rfl

/-- Every document is read, and says what it holds. -/
theorem read_of_documentText {src : Source} {bs : List UInt8} {files : List SourceFile}
    (h : DocumentText files bs) : read src bs = .ok files := by
  obtain ⟨raw, hr, ws, ws', hw, hw', rfl⟩ := h
  have haccepts : Accepts .document raw (.finished files) :=
    accepts_record (fun _ => rfl) (fun _ => rfl) (readable_document files) hr
  refine read_eq_ok_iff_runs.mpr ?_
  exact ((runs_blanks rfl hw).append haccepts.value).append (runs_blanks rfl hw')

end TypeDeps.Document
