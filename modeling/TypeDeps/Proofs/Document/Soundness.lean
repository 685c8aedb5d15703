import TypeDeps.Proofs.Document.Records
import TypeDeps.Proofs.Document.Runs
import TypeDeps.Proofs.Json.SkippedValue

/-!
# What the reader has read

Every state of the reader gives an account of the text so far: what is open, one layer inside
the other, and what of it is there. A step keeps the account, so that a text which is read to
its end is a document of the files that were read.
-/
namespace TypeDeps.Document

open Json

def Behind (before part : List UInt8 → Prop) (raw : List UInt8) : Prop :=
  ∃ pre body, before pre ∧ part body ∧ raw = pre ++ body

theorem Behind.append {before part part' : List UInt8 → Prop} {raw x : List UInt8}
    (h : Behind before part raw) (hx : ∀ body, part body → part' (body ++ x)) :
    Behind before part' (raw ++ x) := by
  obtain ⟨pre, body, hb, hp, rfl⟩ := h
  exact ⟨pre, body ++ x, hb, hx body hp, by simp⟩

/-- A list from its opening bracket on. -/
def ListPart {α : Type} (R : α → List UInt8 → Prop) (xs : List α) (st : Stage)
    (raw : List UInt8) : Prop :=
  ∃ items, List.Forall₂ R xs items ∧ Part 0x5B st items raw

namespace ListPart

variable {α : Type} {R : α → List UInt8 → Prop} {xs : List α} {st : Stage} {raw : List UInt8}

theorem opened : ListPart R [] .opened [0x5B] := ⟨[], .nil, .opened .nil⟩

theorem blank {b : UInt8} (h : ListPart R xs st raw) (hb : isBlank b) :
    ListPart R xs st (raw ++ [b]) := by
  obtain ⟨items, hi, hp⟩ := h
  exact ⟨items, hi, hp.blank hb⟩

theorem comma (h : ListPart R xs .item raw) : ListPart R xs .comma (raw ++ [0x2C]) := by
  obtain ⟨items, hi, hp⟩ := h
  exact ⟨items, hi, .comma hp .nil⟩

theorem item {x : α} {v : List UInt8} (h : ListPart R xs st raw) (hst : st ≠ .item) (hx : R x v) :
    ListPart R (xs ++ [x]) .item (raw ++ v) := by
  obtain ⟨items, hi, hp⟩ := h
  refine ⟨items ++ [v], forall₂_snoc hi hx, ?_⟩
  simpa using Part.item (x := v) hp hst .nil

theorem close (h : ListPart R xs st raw) (hst : st ≠ .comma) : ArrayOf R xs (raw ++ [0x5D]) := by
  obtain ⟨items, hi, hp⟩ := h
  exact ⟨items, hi, hp.close hst⟩

end ListPart

/-- The text up to the value of a field. Under names, the field's own name is the last key. -/
inductive Awaits (before : List UInt8 → Prop) (slots : List Slot) (name : String) :
    Form → List UInt8 → Prop
  | named {st : Stage} {raw key ws ws' : List UInt8} (hst : st ≠ .item)
      (h : Behind before (RecordPart slots st · .named) raw) (hm : missing name ∈ slots)
      (hk : Spells name key) (hw : Blanks ws) (hw' : Blanks ws') :
      Awaits before slots name .named (raw ++ key ++ ws ++ 0x3A :: ws')
  | positional {st : Stage} {raw : List UInt8} (hst : st ≠ .item)
      (h : Behind before (RecordPart slots st · .positional) raw)
      (hm : slots.find? (·.2.isNone) = some (missing name)) :
      Awaits before slots name .positional raw

theorem Awaits.blank {before : List UInt8 → Prop} {slots : List Slot} {name : String}
    {form : Form} {raw : List UInt8} {b : UInt8} (h : Awaits before slots name form raw)
    (hb : isBlank b) : Awaits before slots name form (raw ++ [b]) := by
  cases h with
  | @named st raw key ws ws' hst h hm hk hw hw' =>
    simpa using Awaits.named hst h hm hk hw (hw'.snoc hb)
  | positional hst h hm => exact .positional hst (h.append fun _ hp => hp.blank hb) hm

theorem Awaits.value {before : List UInt8 → Prop} {slots : List Slot} {name : String}
    {form : Form} {raw v : List UInt8} {P : List UInt8 → Prop}
    (h : Awaits before slots name form raw) (hn : (slots.map Prod.fst).Nodup) (hv : P v) :
    Behind before (RecordPart (setSlot slots name P) .item · form) (raw ++ v) := by
  cases h with
  | @named st raw key ws ws' hst h hm hk hw hw' =>
    have hmember : MemberText (name, v) (key ++ ws ++ 0x3A :: ws' ++ v) :=
      ⟨key, hk, ws, ws', hw, hw', rfl⟩
    have : Behind before (RecordPart (setSlot slots name P) .item · .named)
        (raw ++ (key ++ ws ++ 0x3A :: ws' ++ v)) :=
      h.append fun _ hp => hp.member hst hm hmember hv
    simpa using this
  | positional hst h hm => exact h.append fun _ hp => hp.next hst hm hn hv

/-! ## The account of each state -/

/-- The list of entries that is open. -/
def FilesText (form : Form) (items : List SourceFile) : Stage → List UInt8 → Prop := fun st =>
  Behind (Awaits Blanks [missing "files"] "files" form) (ListPart EntryText items.reverse st)

/-- What stands before an object. -/
def OpenObject.Before : OpenObject → List UInt8 → Prop
  | document _ _ => Blanks
  | entry e => fun raw => ∃ st, st ≠ .item ∧ FilesText e.outer e.before st raw

def OpenObject.Text (o : OpenObject) (st : Stage) : List UInt8 → Prop :=
  Behind o.Before (RecordPart o.slots st · o.form)

def OpenObject.Awaits (o : OpenObject) (name : String) : List UInt8 → Prop :=
  Document.Awaits o.Before o.slots name o.form

def OpenList.Text : OpenList → Stage → List UInt8 → Prop
  | files form items => FilesText form items
  | names e l items => fun st =>
    Behind ((OpenObject.entry e).Awaits (Member.names l).key) (ListPart Spells items.reverse st)

def Place.Before : Place → List UInt8 → Prop
  | document => Blanks
  | files form => (OpenObject.document form none).Awaits "files"
  | entry form before => fun raw => ∃ st, st ≠ .item ∧ FilesText form before st raw
  | path e => (OpenObject.entry e).Awaits "path"
  | names e l => (OpenObject.entry e).Awaits (Member.names l).key
  | name e l before => fun raw => ∃ st, st ≠ .item ∧ (OpenList.names e l before).Text st raw

/-- The text up to the colon behind the key of a member that is no field. -/
def OpenObject.Skips (o : OpenObject) (raw : List UInt8) : Prop :=
  ∃ st pre name key ws, st ≠ .item ∧ o.Text st pre ∧ name ∉ o.slots.map Prod.fst ∧
    Spells name key ∧ Blanks ws ∧ raw = pre ++ key ++ ws ++ [0x3A]

/-- The text up to a key, and what the key says about the value to come. -/
def OpenObject.Keyed (o : OpenObject) (p : Option Place) (raw : List UInt8) : Prop :=
  match p with
  | none => ∀ ws, Blanks ws → o.Skips (raw ++ ws ++ [0x3A])
  | some p => ∀ ws, Blanks ws → p.Before (raw ++ ws ++ [0x3A])

def State.Holds : State → List UInt8 → Prop
  | value p, raw => p.Before raw
  | listOpened l, raw => l.Text .opened raw
  | listComma l, raw => l.Text .comma raw
  | listItem l, raw => l.Text .item raw
  | objectOpened o, raw => o.form = .named ∧ o.Text .opened raw
  | objectComma o, raw => o.form = .named ∧ o.Text .comma raw
  | key o r, raw => o.form = .named ∧ ∃ st pre part, st ≠ .item ∧ o.Text st pre ∧ r.Holds part ∧
      raw = pre ++ 0x22 :: part
  | colon o p, raw => o.form = .named ∧ ∃ pre ws, o.Keyed p pre ∧ Blanks ws ∧ raw = pre ++ ws
  | objectValue o, raw => o.form = .named ∧ o.Text .item raw
  | arrayOpened o, raw => o.form = .positional ∧ o.Text .opened raw
  | arrayComma o, raw => o.form = .positional ∧ o.Text .comma raw
  | arrayValue o, raw => o.form = .positional ∧ o.Text .item raw
  | pathString e r, raw => ∃ pre part, (Place.path e).Before pre ∧ r.Holds part ∧
      raw = pre ++ 0x22 :: part
  | nameString e l before r, raw => ∃ pre part, (Place.name e l before).Before pre ∧
      r.Holds part ∧ raw = pre ++ 0x22 :: part
  | skipping o k, raw => o.form = .named ∧ ∃ pre part, o.Skips pre ∧ k.Holds part ∧
      raw = pre ++ part
  | finished files, raw => DocumentText files raw
  | wrongString .., _ | wrongNumber .., _ | wrongLiteral .., _ | repeatedKey _, _
  | surplusComma, _ => True

/-! ## Steps -/

variable {o : OpenObject} {l : OpenList} {p : Place} {st : Stage} {raw : List UInt8} {b : UInt8}
  {s : State}

theorem OpenObject.Text.blank (h : o.Text st raw) (hb : isBlank b) : o.Text st (raw ++ [b]) :=
  h.append fun _ hp => hp.blank hb

theorem OpenObject.Text.comma (h : o.Text .item raw) : o.Text .comma (raw ++ [0x2C]) :=
  h.append fun _ hp => hp.comma

theorem OpenList.Text.blank (h : l.Text st raw) (hb : isBlank b) : l.Text st (raw ++ [b]) := by
  cases l <;> exact h.append fun _ hp => hp.blank hb

theorem OpenList.Text.comma (h : l.Text .item raw) : l.Text .comma (raw ++ [0x2C]) := by
  cases l <;> exact h.append fun _ hp => hp.comma

theorem Place.Before.blank (h : p.Before raw) (hb : isBlank b) : p.Before (raw ++ [b]) := by
  cases p with
  | document => exact Blanks.snoc h hb
  | files form => exact Awaits.blank h hb
  | path e => exact Awaits.blank h hb
  | names e l => exact Awaits.blank h hb
  | entry form before =>
    obtain ⟨st, hst, h⟩ := h
    exact ⟨st, hst, OpenList.Text.blank (l := .files form before) h hb⟩
  | name e l before =>
    obtain ⟨st, hst, h⟩ := h
    exact ⟨st, hst, h.blank hb⟩

theorem OpenList.Text.before (h : l.Text st raw) (hst : st ≠ .item) :
    (Place.ofList l).Before raw := by
  cases l <;> exact ⟨st, hst, h⟩

theorem holds_behindValue (h : o.Text .item raw) : (State.behindValue o).Holds raw := by
  unfold State.behindValue
  cases hf : o.form with
  | named => exact ⟨hf, h⟩
  | positional => exact ⟨hf, h⟩

theorem slots_path (e : OpenEntry) (path : String) :
    setSlot (OpenObject.entry e).slots "path" (Spells path) =
      (OpenObject.entry { e with draft := { e.draft with path := some path } }).slots := by
  simp [setSlot, OpenObject.slots, given]

theorem slots_names (e : OpenEntry) (l : NameList) (ns : List String) :
    setSlot (OpenObject.entry e).slots (Member.names l).key (ArrayOf Spells ns) =
      (OpenObject.entry { e with draft := e.draft.setNames l ns }).slots := by
  cases l <;> simp [setSlot, OpenObject.slots, given, Draft.setNames, Member.key]

theorem holds_ofPath {e : OpenEntry} {path : String} {v : List UInt8}
    (h : (Place.path e).Before raw) (hv : Spells path v) :
    (State.ofPath e path).Holds (raw ++ v) := by
  have hvalue := Awaits.value h (OpenObject.slots_nodup _) hv
  rw [slots_path] at hvalue
  exact holds_behindValue hvalue

theorem holds_ofList (h : l.Text st raw) (hst : st ≠ .comma) :
    (State.ofList l).Holds (raw ++ [0x5D]) := by
  cases l with
  | files form items =>
    obtain ⟨pre, body, ha, hl, rfl⟩ := h
    have hvalue := Awaits.value ha (by simp [missing]) (hl.close hst)
    rw [← List.append_assoc] at hvalue
    exact holds_behindValue (o := .document form (some items.reverse)) hvalue
  | names e l items =>
    obtain ⟨pre, body, ha, hl, rfl⟩ := h
    have hvalue := Awaits.value ha (OpenObject.slots_nodup _) (hl.close hst)
    rw [slots_names, ← List.append_assoc] at hvalue
    exact holds_behindValue hvalue

/-- An entry that is complete comes into the list around it. -/
theorem holds_entry {e : OpenEntry} {f : SourceFile} (h : (OpenObject.entry e).Text st raw)
    (hst : st ≠ .comma) (hf : e.draft.file? = some f) :
    (State.listItem (.files e.outer (f :: e.before))).Holds (raw ++ [e.form.close]) := by
  obtain ⟨outer, before, form, path?, classes?, imports?⟩ := e
  simp only [Draft.file?, Option.bind_eq_bind, Option.bind_eq_some_iff] at hf
  obtain ⟨path, rfl, classes, rfl, imports, rfl, hf⟩ := hf
  obtain rfl : (⟨.ofString path, classes, imports⟩ : SourceFile) = f := Option.some.inj hf
  obtain ⟨pre, body, ⟨st', hst', hlist⟩, hrecord, rfl⟩ := h
  have hentry : EntryText ⟨.ofString path, classes, imports⟩ (body ++ [form.close]) :=
    ⟨path, rfl, RecordPart.close hrecord hst⟩
  rw [List.append_assoc]
  show FilesText outer (_ :: before) .item _
  refine hlist.append fun _ hl => ?_
  rw [List.reverse_cons]
  exact hl.item hst' hentry

theorem holds_ofObject (h : o.Text st raw) (hst : st ≠ .comma)
    (hs : State.ofObject o = .ok s) : s.Holds (raw ++ [o.form.close]) := by
  cases o with
  | document form files =>
    cases files with
    | none => cases hs
    | some files =>
      obtain rfl := Except.ok.inj hs
      obtain ⟨pre, body, hpre, hrecord, rfl⟩ := h
      have hdoc : RecordText [("files", ArrayOf EntryText files)] (body ++ [form.close]) :=
        RecordPart.close hrecord hst
      exact ⟨_, hdoc, pre, [], hpre, .nil, by simp [OpenObject.form]⟩
  | entry e =>
    simp only [State.ofObject] at hs
    split at hs
    · next f hf =>
      obtain rfl := Except.ok.inj hs
      exact holds_entry h hst hf
    · cases hs

theorem missing_mem_slots {e : OpenEntry} {m : Member} (h : e.draft.has m = false) :
    missing m.key ∈ (OpenObject.entry e).slots := by
  obtain ⟨outer, before, form, path, classes, imports⟩ := e
  rcases m with _ | (_ | _) <;> simp_all [Draft.has, OpenObject.slots, missing, Member.key]

theorem before_ofMember {e : OpenEntry} {m : Member}
    (h : (OpenObject.entry e).Awaits m.key raw) : (Place.ofMember e m).Before raw := by
  cases m <;> exact h

/-- The text of a member up to its colon, when the key is the name of a missing field. -/
theorem awaits_of_key {name : String} {key ws : List UInt8} (hform : o.form = .named)
    (h : o.Text st raw) (hst : st ≠ .item) (hm : missing name ∈ o.slots) (hk : Spells name key)
    (hw : Blanks ws) : o.Awaits name (raw ++ key ++ ws ++ [0x3A]) := by
  unfold OpenObject.Text at h
  unfold OpenObject.Awaits
  rw [hform] at h ⊢
  exact .named hst h hm hk hw .nil

theorem holds_ofKey {name : String} {key : List UInt8} (hform : o.form = .named)
    (h : o.Text st raw) (hst : st ≠ .item) (hk : Spells name key) :
    (State.ofKey o name).Holds (raw ++ key) := by
  cases o with
  | document form files =>
    simp only [State.ofKey]
    split_ifs with hname hfiles
    · trivial
    · obtain rfl : files = none := by simpa using hfiles
      refine ⟨hform, raw ++ key, [], fun ws hw => ?_, .nil, by simp⟩
      exact awaits_of_key hform h hst (by simp [OpenObject.slots, missing]) (hname ▸ hk) hw
    · refine ⟨hform, raw ++ key, [], fun ws hw => ?_, .nil, by simp⟩
      exact ⟨st, raw, name, key, ws, hst, h, by simpa [OpenObject.slots] using hname, hk, hw, rfl⟩
  | entry e =>
    simp only [State.ofKey]
    split
    · next m hm =>
      obtain rfl : m.key = name := by simpa using List.find?_some hm
      split_ifs with hhas
      · trivial
      · refine ⟨hform, raw ++ key, [], fun ws hw => ?_, .nil, by simp⟩
        have hmissing := missing_mem_slots (e := e) (Bool.eq_false_iff.mpr hhas)
        exact before_ofMember (awaits_of_key hform h hst hmissing hk hw)
    · next hnone =>
      refine ⟨hform, raw ++ key, [], fun ws hw => ?_, .nil, by simp⟩
      exact ⟨st, raw, name, key, ws, hst, h, ofKey?_eq_none_iff.mp hnone, hk, hw, rfl⟩

/-- The first missing field of an array is the one whose place comes next. -/
theorem before_ofObject? (hform : o.form = .positional) (h : o.Text st raw) (hst : st ≠ .item)
    (hp : Place.ofObject? o = some p) : p.Before raw := by
  cases o with
  | document form files =>
    cases files with
    | some files => cases hp
    | none =>
      obtain rfl := Option.some.inj hp
      obtain rfl : form = .positional := hform
      exact .positional hst h rfl
  | entry e =>
    obtain ⟨m, hm, rfl⟩ := Option.map_eq_some_iff.mp hp
    obtain ⟨outer, before, form, path, classes, imports⟩ := e
    obtain rfl : form = .positional := hform
    refine before_ofMember (.positional hst h ?_)
    have hall : ∀ d : Draft, (OpenObject.entry ⟨outer, before, .positional, d⟩).slots.find?
        (·.2.isNone) = d.missing?.map fun m => missing m.key := by
      rintro ⟨path, classes, imports⟩
      cases path <;> cases classes <;> cases imports <;>
        simp [OpenObject.slots, Draft.missing?, Member.all, Draft.has, missing, Member.key]
    rw [hall, hm]
    rfl

theorem holds_wrongValue {x : Expected} (hs : State.wrongValue x b = .ok s) : s.Holds raw := by
  unfold State.wrongValue at hs
  split_ifs at hs <;> (obtain rfl := Except.ok.inj hs; trivial)

theorem holds_opened (h : p.Before raw) (hs : State.opened? p b = some s) :
    s.Holds (raw ++ [b]) := by
  cases p with
  | document =>
    simp only [State.opened?, State.openObject] at hs
    split_ifs at hs with hb hb
    · obtain rfl := Option.some.inj hs
      exact ⟨rfl, raw, [b], h, hb ▸ .opened ["files"] .named, rfl⟩
    · obtain rfl := Option.some.inj hs
      exact ⟨rfl, raw, [b], h, hb ▸ .opened ["files"] .positional, rfl⟩
  | entry outer before =>
    simp only [State.opened?, State.openObject] at hs
    split_ifs at hs with hb hb
    · obtain rfl := Option.some.inj hs
      exact ⟨rfl, raw, [b], h, hb ▸ .opened ["path", "classes", "imports"] .named, rfl⟩
    · obtain rfl := Option.some.inj hs
      exact ⟨rfl, raw, [b], h, hb ▸ .opened ["path", "classes", "imports"] .positional, rfl⟩
  | files form =>
    simp only [State.opened?] at hs
    split_ifs at hs with hb
    obtain rfl := Option.some.inj hs
    exact ⟨raw, [b], h, hb ▸ .opened, rfl⟩
  | names e l =>
    simp only [State.opened?] at hs
    split_ifs at hs with hb
    obtain rfl := Option.some.inj hs
    exact ⟨raw, [b], h, hb ▸ .opened, rfl⟩
  | path e =>
    simp only [State.opened?] at hs
    split_ifs at hs with hb
    obtain rfl := Option.some.inj hs
    exact ⟨raw, [], h, StringReader.holds_start, by rw [hb]⟩
  | name e l before =>
    simp only [State.opened?] at hs
    split_ifs at hs with hb
    obtain rfl := Option.some.inj hs
    exact ⟨raw, [], h, StringReader.holds_start, by rw [hb]⟩

theorem holds_startValue (h : p.Before raw) (hs : State.startValue p b = .ok s) :
    s.Holds (raw ++ [b]) := by
  unfold State.startValue at hs
  split at hs
  · next s' hs' =>
    obtain rfl := Except.ok.inj hs
    exact holds_opened h hs'
  · exact holds_wrongValue hs

/-- Which closing bracket ends an object is a matter of its form. -/
theorem holds_close (h : o.Text st raw) (hst : st ≠ .comma) (hb : b = o.form.close)
    (hs : State.ofObject o = .ok s) : s.Holds (raw ++ [b]) :=
  hb ▸ holds_ofObject h hst hs

theorem holds_stepObjectValue (hform : o.form = .named) (h : o.Text .item raw)
    (hs : State.stepObjectValue o b = .ok s) : s.Holds (raw ++ [b]) := by
  unfold State.stepObjectValue at hs
  split_ifs at hs with hc hb
  · obtain rfl := Except.ok.inj hs
    exact ⟨hform, hc ▸ h.comma⟩
  · exact holds_close h (by simp) (by rw [hform, hb]; rfl) hs

theorem holds_stepArrayValue (hform : o.form = .positional) (h : o.Text .item raw)
    (hs : State.stepArrayValue o b = .ok s) : s.Holds (raw ++ [b]) := by
  unfold State.stepArrayValue at hs
  split at hs
  · split_ifs at hs with hc
    obtain rfl := Except.ok.inj hs
    exact ⟨hform, hc ▸ h.comma⟩
  · split_ifs at hs with hb hc
    · exact holds_close h (by simp) (by rw [hform, hb]; rfl) hs
    · obtain rfl := Except.ok.inj hs
      trivial

theorem holds_startArrayValue (hform : o.form = .positional) (h : o.Text st raw) (hst : st ≠ .item)
    (hs : State.startArrayValue o b = .ok s) : s.Holds (raw ++ [b]) := by
  unfold State.startArrayValue at hs
  split at hs
  · next p hp => exact holds_startValue (before_ofObject? hform h hst hp) hs
  · cases hs

theorem holds_blank (h : s.Holds raw) (ht : s.betweenTokens) (hb : isBlank b) :
    s.Holds (raw ++ [b]) := by
  cases s with
  | value p => exact Place.Before.blank h hb
  | listOpened l => exact OpenList.Text.blank h hb
  | listComma l => exact OpenList.Text.blank h hb
  | listItem l => exact OpenList.Text.blank h hb
  | objectOpened o => exact ⟨h.1, h.2.blank hb⟩
  | objectComma o => exact ⟨h.1, h.2.blank hb⟩
  | objectValue o => exact ⟨h.1, h.2.blank hb⟩
  | arrayOpened o => exact ⟨h.1, h.2.blank hb⟩
  | arrayComma o => exact ⟨h.1, h.2.blank hb⟩
  | arrayValue o => exact ⟨h.1, h.2.blank hb⟩
  | colon o p =>
    obtain ⟨hform, pre, ws, hk, hw, rfl⟩ := h
    exact ⟨hform, pre, ws ++ [b], hk, hw.snoc hb, by simp⟩
  | finished files =>
    obtain ⟨body, hr, ws, ws', hw, hw', rfl⟩ := h
    exact ⟨body, hr, ws, ws' ++ [b], hw, hw'.snoc hb, by simp⟩
  | repeatedKey name => trivial
  | surplusComma => trivial
  | _ => cases ht

theorem holds_stepToken (h : s.Holds raw) (ht : s.betweenTokens) {s' : State}
    (hs : s.stepToken b = .ok s') : s'.Holds (raw ++ [b]) := by
  cases s with
  | value p => exact holds_startValue h hs
  | listOpened l =>
    simp only [State.stepToken] at hs
    split_ifs at hs with hb
    · obtain rfl := Except.ok.inj hs
      exact hb ▸ holds_ofList h (by simp)
    · exact holds_startValue (OpenList.Text.before h (by simp)) hs
  | listComma l =>
    simp only [State.stepToken] at hs
    split_ifs at hs with hb
    exact holds_startValue (OpenList.Text.before h (by simp)) hs
  | listItem l =>
    simp only [State.stepToken] at hs
    split_ifs at hs with hc hb
    · obtain rfl := Except.ok.inj hs
      exact hc ▸ OpenList.Text.comma h
    · obtain rfl := Except.ok.inj hs
      exact hb ▸ holds_ofList h (by simp)
  | objectOpened o =>
    simp only [State.stepToken] at hs
    split_ifs at hs with hq hb
    · obtain rfl := Except.ok.inj hs
      exact ⟨h.1, .opened, raw, [], by simp, h.2, StringReader.holds_start, by rw [hq]⟩
    · exact holds_close h.2 (by simp) (by rw [h.1, hb]; rfl) hs
  | objectComma o =>
    simp only [State.stepToken] at hs
    split_ifs at hs with hq
    obtain rfl := Except.ok.inj hs
    exact ⟨h.1, .comma, raw, [], by simp, h.2, StringReader.holds_start, by rw [hq]⟩
  | colon o p =>
    obtain ⟨hform, pre, ws, hk, hw, rfl⟩ := h
    simp only [State.stepToken] at hs
    split_ifs at hs with hb
    subst hb
    cases p with
    | some p =>
      obtain rfl := Except.ok.inj hs
      exact hk ws hw
    | none =>
      obtain rfl := Except.ok.inj hs
      exact ⟨hform, _, [], hk ws hw, Skipper.holds_start, by simp⟩
  | objectValue o => exact holds_stepObjectValue h.1 h.2 hs
  | arrayOpened o =>
    simp only [State.stepToken] at hs
    split_ifs at hs with hb
    exact holds_startArrayValue h.1 h.2 (by simp) hs
  | arrayComma o =>
    simp only [State.stepToken] at hs
    split_ifs at hs with hb
    exact holds_startArrayValue h.1 h.2 (by simp) hs
  | arrayValue o => exact holds_stepArrayValue h.1 h.2 hs
  | repeatedKey name =>
    simp only [State.stepToken] at hs
    split_ifs at hs
  | surplusComma =>
    simp only [State.stepToken] at hs
    split_ifs at hs
  | finished files => cases hs
  | _ => cases ht

theorem holds_stepString {r : StringReader} {pre part : List UInt8}
    {more : StringReader → State} {done : String → Except Fault State} (hr : r.Holds part)
    (hmore : ∀ r', r'.Holds (part ++ [b]) → (more r').Holds (pre ++ 0x22 :: part ++ [b]))
    (hdone : ∀ t s', Spells t (0x22 :: part ++ [b]) → done t = .ok s' →
      s'.Holds (pre ++ 0x22 :: part ++ [b]))
    (hs : State.stepString r b more done = .ok s) : s.Holds (pre ++ 0x22 :: part ++ [b]) := by
  unfold State.stepString at hs
  split at hs
  · next r' hm =>
    obtain rfl := Except.ok.inj hs
    exact hmore r' (hr.more hm)
  · next t hd => exact hdone t s (hr.done hd) hs
  · next t hp => exact absurd hp (StringReader.step_ne_passed _ _ _)
  · cases hs

theorem OpenObject.Skips.item {pre part : List UInt8} (hform : o.form = .named) (h : o.Skips pre)
    (hv : Skipper.Skipped part) : o.Text .item (pre ++ part) := by
  obtain ⟨st, before, name, key, ws, hst, hb, hname, hk, hw, rfl⟩ := h
  obtain ⟨ws', v, hw', hv, rfl⟩ := hv
  have hm : MemberText (name, v) (key ++ ws ++ 0x3A :: ws' ++ v) :=
    ⟨key, hk, ws, ws', hw, hw', rfl⟩
  unfold OpenObject.Text at hb ⊢
  rw [hform] at hb ⊢
  have : Behind o.Before (RecordPart o.slots .item · .named)
      (before ++ (key ++ ws ++ 0x3A :: ws' ++ v)) :=
    hb.append fun _ hp => hp.other hst hname hm hv
  simpa using this

theorem holds_skipping {k : Skipper} (h : (State.skipping o k).Holds raw)
    (hs : (State.skipping o k).step b = .ok s) : s.Holds (raw ++ [b]) := by
  obtain ⟨hform, pre, part, hskip, hk, rfl⟩ := h
  have htells := hk.step b
  simp only [State.step] at hs
  split at hs
  · next k' hm =>
    obtain rfl := Except.ok.inj hs
    rw [hm] at htells
    exact ⟨hform, pre, part ++ [b], hskip, htells, by simp⟩
  · next hd =>
    obtain rfl := Except.ok.inj hs
    rw [hd] at htells
    rw [List.append_assoc]
    exact ⟨hform, hskip.item hform htells⟩
  · next hp =>
    rw [hp] at htells
    have hitem := hskip.item hform htells
    split_ifs at hs with hb
    · obtain rfl := Except.ok.inj hs
      exact ⟨hform, hitem.blank hb⟩
    · exact holds_stepObjectValue hform hitem hs
  · cases hs

/-- Every step keeps the account of the text. -/
theorem State.Holds.step (h : s.Holds raw) {s' : State} (hs : s.step b = .ok s') :
    s'.Holds (raw ++ [b]) := by
  by_cases ht : s.betweenTokens
  · rw [State.step_of_betweenTokens ht] at hs
    split_ifs at hs with hb
    · obtain rfl := Except.ok.inj hs
      exact holds_blank h ht hb
    · exact holds_stepToken h ht hs
  -- inside a token the account of the token grows, and what stands before it stays
  cases s with
  | key o r =>
    obtain ⟨hform, st, pre, part, hst, ho, hr, rfl⟩ := h
    refine holds_stepString hr (fun r' hr' => ?_) (fun t s' hk he => ?_) hs
    · exact ⟨hform, st, pre, part ++ [b], hst, ho, hr', by simp⟩
    · obtain rfl := Except.ok.inj he
      rw [List.append_assoc]
      exact holds_ofKey hform ho hst hk
  | pathString e r =>
    obtain ⟨pre, part, hp, hr, rfl⟩ := h
    refine holds_stepString hr (fun r' hr' => ?_) (fun t s' hk he => ?_) hs
    · exact ⟨pre, part ++ [b], hp, hr', by simp⟩
    · obtain rfl := Except.ok.inj he
      rw [List.append_assoc]
      exact holds_ofPath hp hk
  | nameString e l before r =>
    obtain ⟨pre, part, hp, hr, rfl⟩ := h
    refine holds_stepString hr (fun r' hr' => ?_) (fun t s' hk he => ?_) hs
    · exact ⟨pre, part ++ [b], hp, hr', by simp⟩
    · obtain rfl := Except.ok.inj he
      obtain ⟨st, hst, hl⟩ := hp
      rw [List.append_assoc]
      refine hl.append fun body hbody => ?_
      rw [List.reverse_cons]
      exact hbody.item hst hk
  | skipping o k => exact holds_skipping h hs
  -- a value of the wrong kind promises nothing, since it cannot but end in a fault
  | wrongString x r =>
    simp only [State.step, State.stepString] at hs
    split at hs <;> first | (obtain rfl := Except.ok.inj hs; trivial) | cases hs
  | wrongNumber x r =>
    simp only [State.step] at hs
    split at hs <;> first | (obtain rfl := Except.ok.inj hs; trivial) | cases hs
  | wrongLiteral x found ls =>
    simp only [State.step] at hs
    split at hs <;> first | (obtain rfl := Except.ok.inj hs; trivial) | cases hs
  | _ => exact absurd rfl ht

theorem holds_start : State.start.Holds [] := Blanks.nil

theorem Runs.holds {s s' : State} {pre bs : List UInt8} (h : Runs s bs s') (hs : s.Holds pre) :
    s'.Holds (pre ++ bs) := by
  refine h.preserves (P := State.Holds) (fun s b t pre hp ht => hp.step ?_) hs
  cases hstep : s.step b with
  | ok u => simpa [hstep, Except.toOption] using ht
  | error f => simp [hstep, Except.toOption] at ht

/-- What the reader accepts is a document. -/
theorem documentText_of_read {src : Source} {bs : List UInt8} {files : List SourceFile}
    (h : read src bs = .ok files) : DocumentText files bs :=
  (read_eq_ok_iff_runs.mp h).holds holds_start

end TypeDeps.Document
