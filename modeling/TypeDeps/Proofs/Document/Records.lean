import TypeDeps.Document.Reader
import TypeDeps.Proofs.Document.Grammar
import TypeDeps.Proofs.Json.Brackets

/-!
# Unfinished records

Of a record that is being read some fields have their value and others are still missing. Under
names a field comes in wherever its name stands, in an array the first missing one is next. A
record without missing fields can be closed.
-/
namespace TypeDeps.Document

open Json

namespace Form

def open_ : Form → UInt8
  | named => 0x7B
  | positional => 0x5B

def close : Form → UInt8
  | named => 0x7D
  | positional => 0x5D

end Form

/-- A field's name and, once it is there, the texts that its value has. -/
abbrev Slot := String × Option (List UInt8 → Prop)

def given (f : Field) : Slot := (f.1, some f.2)

def missing (name : String) : Slot := (name, none)

def setSlot (slots : List Slot) (name : String) (P : List UInt8 → Prop) : List Slot :=
  slots.map fun s => if s.1 = name then given (name, P) else s

/-- The members say of a field what its slot says. -/
def Agrees (ms : List (String × List UInt8)) (s : Slot) : Prop :=
  match s.2 with
  | none => ∀ m ∈ ms, m.1 ≠ s.1
  | some P => ∃ v, Sole ms s.1 v ∧ P v

/-- A record from its opening bracket on. -/
inductive RecordPart (slots : List Slot) (st : Stage) (raw : List UInt8) : Form → Prop
  | named {ms : List (String × List UInt8)} {items : List (List UInt8)}
      (hp : Part 0x7B st items raw) (hm : List.Forall₂ MemberText ms items)
      (hs : ∀ s ∈ slots, Agrees ms s)
      (ho : ∀ m ∈ ms, m.1 ∉ slots.map Prod.fst → Value m.2) : RecordPart slots st raw .named
  | positional {fields : List Field} {todo : List String} {items : List (List UInt8)}
      (hp : Part 0x5B st items raw) (hi : List.Forall₂ Prod.snd fields items)
      (hs : slots = fields.map given ++ todo.map missing) : RecordPart slots st raw .positional

/-! ## Members that come in -/

theorem Sole.snoc_of_ne {ms : List (String × List UInt8)} {m : String × List UInt8} {name : String}
    {v : List UInt8} (h : Sole ms name v) (hm : m.1 ≠ name) : Sole (ms ++ [m]) name v := by
  rw [Sole, List.filter_append, h, List.filter_cons_of_neg (by simpa using hm)]
  rfl

theorem sole_snoc {ms : List (String × List UInt8)} {name : String} {v : List UInt8}
    (h : ∀ m ∈ ms, m.1 ≠ name) : Sole (ms ++ [(name, v)]) name v := by
  have hnil : ms.filter (·.1 = name) = [] := by
    rw [List.filter_eq_nil_iff]
    simpa using h
  rw [Sole, List.filter_append, hnil]
  simp

theorem Agrees.snoc_of_ne {ms : List (String × List UInt8)} {m : String × List UInt8} {s : Slot}
    (h : Agrees ms s) (hm : m.1 ≠ s.1) : Agrees (ms ++ [m]) s := by
  obtain ⟨name, value⟩ := s
  cases value with
  | none =>
    intro m' hm'
    rcases List.mem_append.mp hm' with hm' | hm'
    · exact h m' hm'
    · rwa [List.mem_singleton.mp hm']
  | some P =>
    obtain ⟨v, hv, hp⟩ := h
    exact ⟨v, hv.snoc_of_ne hm, hp⟩

theorem forall₂_snoc {α β : Type} {R : α → β → Prop} {xs : List α} {ys : List β} {x : α} {y : β}
    (h : List.Forall₂ R xs ys) (hr : R x y) : List.Forall₂ R (xs ++ [x]) (ys ++ [y]) :=
  List.rel_append h (.cons hr .nil)

@[simp] theorem setSlot_names (slots : List Slot) (name : String) (P : List UInt8 → Prop) :
    (setSlot slots name P).map Prod.fst = slots.map Prod.fst := by
  rw [setSlot, List.map_map]
  refine List.map_congr_left fun s _ => ?_
  by_cases h : s.1 = name <;> simp [h, given]

theorem setSlot_append (slots slots' : List Slot) (name : String) (P : List UInt8 → Prop) :
    setSlot (slots ++ slots') name P = setSlot slots name P ++ setSlot slots' name P :=
  List.map_append

theorem setSlot_of_not_mem {slots : List Slot} {name : String} (P : List UInt8 → Prop)
    (h : name ∉ slots.map Prod.fst) : setSlot slots name P = slots := by
  rw [setSlot, List.map_congr_left (g := id), List.map_id]
  intro s hs
  have : s.1 ≠ name := fun he => h (he ▸ List.mem_map_of_mem hs)
  simp [this]

namespace RecordPart

variable {slots : List Slot} {st : Stage} {raw : List UInt8} {form : Form} {b : UInt8}

theorem opened (names : List String) (form : Form) :
    RecordPart (names.map missing) .opened [form.open_] form := by
  cases form with
  | named =>
    refine .named (.opened .nil) .nil ?_ (by simp)
    intro s hs
    obtain ⟨k, -, rfl⟩ := List.mem_map.mp hs
    simp [Agrees, missing]
  | positional =>
    have hslots : names.map missing =
        ([] : List (String × (List UInt8 → Prop))).map given ++ names.map missing := rfl
    exact .positional (.opened .nil) .nil hslots

theorem blank (h : RecordPart slots st raw form) (hb : isBlank b) :
    RecordPart slots st (raw ++ [b]) form := by
  cases h with
  | named hp hm hs ho => exact .named (hp.blank hb) hm hs ho
  | positional hp hi hs => exact .positional (hp.blank hb) hi hs

theorem comma (h : RecordPart slots .item raw form) :
    RecordPart slots .comma (raw ++ [0x2C]) form := by
  cases h with
  | named hp hm hs ho => exact .named (.comma hp .nil) hm hs ho
  | positional hp hi hs => exact .positional (.comma hp .nil) hi hs

theorem member (h : RecordPart slots st raw .named) (hst : st ≠ .item) {name : String}
    {P : List UInt8 → Prop} {v item : List UInt8} (hk : missing name ∈ slots)
    (hm : MemberText (name, v) item) (hv : P v) :
    RecordPart (setSlot slots name P) .item (raw ++ item) .named := by
  cases h with | @named ms items hp hms hs ho => ?_
  have hnone : ∀ m ∈ ms, m.1 ≠ name := hs _ hk
  have hpart := Part.item (x := item) hp hst .nil
  rw [List.append_nil] at hpart
  refine .named hpart (forall₂_snoc hms hm) ?_ ?_
  · intro s' hs'
    obtain ⟨s, hmem, rfl⟩ := List.mem_map.mp hs'
    split_ifs with he
    · exact ⟨v, sole_snoc hnone, hv⟩
    · exact (hs s hmem).snoc_of_ne (Ne.symm he)
  · intro m hmem hname
    rw [setSlot_names] at hname
    rcases List.mem_append.mp hmem with hmem | hmem
    · exact ho m hmem hname
    · obtain rfl := List.mem_singleton.mp hmem
      exact absurd (List.mem_map_of_mem hk) hname

theorem other (h : RecordPart slots st raw .named) (hst : st ≠ .item) {name : String}
    {v item : List UInt8} (hk : name ∉ slots.map Prod.fst) (hm : MemberText (name, v) item)
    (hv : Value v) : RecordPart slots .item (raw ++ item) .named := by
  obtain ⟨hp, hms, hs, ho⟩ := h
  have hpart := Part.item (x := item) hp hst .nil
  rw [List.append_nil] at hpart
  refine .named hpart (forall₂_snoc hms hm) ?_ ?_
  · intro s hmem
    refine (hs s hmem).snoc_of_ne ?_
    rintro rfl
    exact hk (List.mem_map_of_mem hmem)
  · intro m hmem hname
    rcases List.mem_append.mp hmem with hmem | hmem
    · exact ho m hmem hname
    · rwa [List.mem_singleton.mp hmem]

theorem next (h : RecordPart slots st raw .positional) (hst : st ≠ .item) {name : String}
    {P : List UInt8 → Prop} {v : List UInt8}
    (hk : slots.find? (·.2.isNone) = some (missing name)) (hn : (slots.map Prod.fst).Nodup)
    (hv : P v) : RecordPart (setSlot slots name P) .item (raw ++ v) .positional := by
  cases h with | @positional fields todo items hp hi hs => ?_
  subst hs
  have hpart := Part.item (x := v) hp hst .nil
  rw [List.append_nil] at hpart
  obtain ⟨rest, rfl⟩ : ∃ rest, todo = name :: rest := by
    have hnone : (fields.map given).find? (·.2.isNone) = none := by simp [given]
    rw [List.find?_append, hnone, Option.none_or] at hk
    cases todo with
    | nil => simp at hk
    | cons k rest =>
      have he : missing k = missing name := by simpa [missing] using hk
      exact ⟨rest, by rw [show k = name from congrArg Prod.fst he]⟩
  simp only [List.map_append, List.map_cons, List.nodup_append, List.nodup_cons] at hn
  obtain ⟨-, ⟨hrest, -⟩, hfields⟩ := hn
  have hf : setSlot (fields.map given) name P = fields.map given :=
    setSlot_of_not_mem P fun hmem => hfields _ hmem _ (by simp [missing]) rfl
  have ht : setSlot (rest.map missing) name P = rest.map missing := setSlot_of_not_mem P hrest
  have hslots : setSlot (fields.map given ++ (name :: rest).map missing) name P =
      (fields ++ [(name, P)]).map given ++ rest.map missing := by
    have hone : setSlot [missing name] name P = [given (name, P)] := by
      simp [setSlot, missing, given]
    rw [List.map_cons, ← List.singleton_append, setSlot_append, setSlot_append, hf, ht, hone]
    simp
  exact .positional hpart (forall₂_snoc hi hv) hslots

/-- Without missing fields the record can be closed. -/
theorem close {fields : List Field} (h : RecordPart (fields.map given) st raw form)
    (hst : st ≠ .comma) : RecordText fields (raw ++ [form.close]) := by
  cases h with
  | named hp hm hs ho =>
    refine .inr ⟨_, ⟨_, hm, hp.close hst⟩, ?_, ?_⟩
    · intro f hf
      exact hs (given f) (List.mem_map_of_mem hf)
    · simpa [given, Function.comp_def] using ho
  | @positional fields' todo items hp hi hs =>
    obtain rfl : todo = [] := by
      cases todo with
      | nil => rfl
      | cons k _ =>
        have : missing k ∈ fields.map given := by simp [hs]
        simp [missing, given] at this
    have hfields : fields = fields' := by
      refine List.map_injective_iff.mpr ?_ (by simpa using hs)
      rintro ⟨k, P⟩ ⟨k', P'⟩ he
      simpa [given] using he
    exact .inl ⟨items, hfields ▸ hi, hp.close hst⟩

end RecordPart

/-! ## The records of the reader -/

namespace OpenObject

def slots : OpenObject → List Slot
  | document _ files => [("files", files.map (ArrayOf EntryText))]
  | entry e =>
    [("path", e.draft.path.map Spells), ("classes", e.draft.classes.map (ArrayOf Spells)),
      ("imports", e.draft.imports.map (ArrayOf Spells))]

theorem slots_nodup (o : OpenObject) : (o.slots.map Prod.fst).Nodup := by
  cases o <;> simp [slots]

end OpenObject

theorem ofKey?_eq_none_iff {e : OpenEntry} {k : String} :
    Member.ofKey? k = none ↔ k ∉ (OpenObject.entry e).slots.map Prod.fst := by
  have hnames : (OpenObject.entry e).slots.map Prod.fst = Member.all.map Member.key := rfl
  rw [hnames, Member.ofKey?, List.find?_eq_none]
  simp

end TypeDeps.Document
