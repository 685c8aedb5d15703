import TypeDeps.Proofs.Document.Language
import TypeDeps.Proofs.Json.Unique

/-!
# The keys of documents

A text reads as an object in one way at most, so it is settled which keys it has. An object is
accepted as a record only if it has all the keys of its fields. But an array of the fields' values
has no keys at all, and it is accepted, too.
-/
namespace TypeDeps.Document

open Json

/-! ## Objects and arrays -/

def JsonObject (ms : List (String × List UInt8)) (raw : List UInt8) : Prop :=
  ObjectOf MemberText ms raw ∧ ∀ m ∈ ms, Value m.2

def JsonArray (items : List (List UInt8)) (raw : List UInt8) : Prop :=
  Enclosed 0x5B 0x5D items raw ∧ ∀ x ∈ items, Value x

variable {m m' : String × List UInt8} {ms ms' : List (String × List UInt8)}
variable {raw raw' rest rest' : List UInt8} {items items' : List (List UInt8)}

theorem MemberText.unique (h : MemberText m raw) (h' : MemberText m' raw') (hv : Value m.2)
    (hv' : Value m'.2) (hrest : Delimited rest) (hrest' : Delimited rest')
    (htext : raw ++ rest = raw' ++ rest') : m = m' ∧ raw = raw' ∧ rest = rest' := by
  have hcolon : isBlank 0x3A = false := rfl
  obtain ⟨name, v⟩ := m
  obtain ⟨name', v'⟩ := m'
  obtain ⟨key, hkey, ws, ws₁, hw, hw₁, rfl⟩ := h
  obtain ⟨key', hkey', ws', ws₁', hw', hw₁', rfl⟩ := h'
  simp only [List.append_assoc, List.cons_append] at htext
  obtain ⟨rfl, rfl, hafterKey⟩ := hkey.unique hkey' htext
  obtain ⟨rfl, hafterBlanks⟩ :=
    Blanks.unique hw hw' (inked_cons hcolon _) (inked_cons hcolon _) hafterKey
  obtain ⟨rfl, hvalue⟩ := Blanks.unique hw₁ hw₁' (separable_value.inked hv _)
    (separable_value.inked hv' _) (List.cons.inj hafterBlanks).2
  obtain ⟨rfl, rfl⟩ := hv.unique hv' hrest hrest' hvalue
  exact ⟨rfl, rfl, rfl⟩

theorem MemberText.head (h : MemberText m raw) :
    ∃ b bs, raw = b :: bs ∧ isBlank b = false ∧ b ≠ 0x7D := by
  obtain ⟨key, ⟨body, -, rfl⟩, ws, ws', -, -, rfl⟩ := h
  exact ⟨0x22, _, rfl, rfl, by decide⟩

theorem separable_member : Separable 0x7D fun raw => ∃ m, MemberText m raw ∧ Value m.2 where
  head _ h := by
    obtain ⟨m, hm, -⟩ := h
    exact hm.head
  unique _ _ _ _ h h' hrest hrest' htext := by
    obtain ⟨m, hm, hv⟩ := h
    obtain ⟨m', hm', hv'⟩ := h'
    exact (hm.unique hm' hv hv' hrest hrest' htext).2

/-- A text is an object of one list of members only. -/
theorem JsonObject.unique (h : JsonObject ms raw) (h' : JsonObject ms' raw) : ms = ms' := by
  obtain ⟨⟨items, hitems, hraw⟩, hv⟩ := h
  obtain ⟨⟨items', hitems', hraw'⟩, hv'⟩ := h'
  have hmembers := (List.forall₂_and_left _ _).mpr ⟨hv, hitems⟩
  have hmembers' := (List.forall₂_and_left _ _).mpr ⟨hv', hitems'⟩
  have hseparable : ∀ {ms : List (String × List UInt8)} {items : List (List UInt8)},
      List.Forall₂ (fun m x => Value m.2 ∧ MemberText m x) ms items →
      ∀ x ∈ items, ∃ m, MemberText m x ∧ Value m.2 := by
    intro ms items hitems x hx
    obtain ⟨m, -, hv, hm⟩ := exists_left_of_forall₂ hitems hx
    exact ⟨m, hm, hv⟩
  obtain rfl := Enclosed.unique (.inr rfl) separable_member (hseparable hmembers)
    (hseparable hmembers') hraw hraw'
  have hunique : Relator.LeftUnique fun (m : String × List UInt8) x =>
      Value m.2 ∧ MemberText m x := by
    intro m m' x hm hm'
    exact (hm.2.unique hm'.2 hm.1 hm'.1 delimited_nil delimited_nil rfl).1
  exact List.left_unique_forall₂' hunique hmembers hmembers'

theorem JsonArray.unique (h : JsonArray items raw) (h' : JsonArray items' raw) : items = items' :=
  Enclosed.unique (.inl rfl) separable_value h.2 h'.2 h.1 h'.1

theorem Enclosed.head {o close : UInt8} (h : Enclosed o close items raw) :
    raw.head? = some o := by
  rcases h with ⟨-, ws, -, rfl⟩ | ⟨-, padded, -, rfl⟩
  · rfl
  · rfl

theorem JsonObject.not_array (h : JsonObject ms raw) (h' : JsonArray items raw) : False := by
  obtain ⟨⟨members, -, hraw⟩, -⟩ := h
  have hhead := (Enclosed.head hraw).symm.trans (Enclosed.head h'.1)
  simp at hhead

/-! ## Texts as values -/

theorem looseContent_of_content {body bs : List UInt8} (h : Content body bs) :
    LooseContent body := by
  induction h with
  | nil => exact .nil
  | @snoc body bs written cs _ hp ih =>
    cases hp with
    | plain hb => exact ih.snoc (.plain hb)
    | letter hb => exact ih.snoc (.letter hb)
    | code hd _ _ => exact ih.snoc (.code hd)
    | pair hd _ he _ =>
      rw [← List.append_assoc]
      exact (ih.snoc (.code hd)).snoc (.code he)

theorem looseString_of_spells {s : String} (h : Spells s raw) : LooseString raw := by
  obtain ⟨body, hc, rfl⟩ := h
  exact ⟨body, looseContent_of_content hc, rfl⟩

theorem value_of_spells {s : String} (h : Spells s raw) : Value raw :=
  .string (looseString_of_spells h)

theorem JsonArray.value (h : JsonArray items raw) : Value raw := .array h.2 h.1

theorem JsonObject.value (h : JsonObject ms raw) : Value raw := by
  obtain ⟨⟨items, hitems, hraw⟩, hv⟩ := h
  refine @Bracket.value_of_enclosed .object _ _ (fun x hx => ?_) hraw
  obtain ⟨m, hm, key, hkey, hpair⟩ := exists_left_of_forall₂ hitems hx
  exact ⟨key, m.2, looseString_of_spells hkey, hv m hm, hpair⟩

theorem jsonArray_of_arrayOf {α : Type} {R : α → List UInt8 → Prop} {xs : List α}
    (hR : ∀ x ∈ xs, ∀ v, R x v → Value v) (h : ArrayOf R xs raw) :
    ∃ items, JsonArray items raw ∧ List.Forall₂ R xs items := by
  obtain ⟨items, hitems, hraw⟩ := h
  refine ⟨items, ⟨hraw, fun v hv => ?_⟩, hitems⟩
  obtain ⟨x, hx, hxv⟩ := exists_left_of_forall₂ hitems hv
  exact hR x hx v hxv

/-! ## Records -/

/-- An object that has each of these keys once, with these values, or the array of the values. -/
def Record (keys : List String) (values : List (List UInt8)) (raw : List UInt8) : Prop :=
  (JsonArray values raw ∧ values.length = keys.length) ∨
  ∃ ms, JsonObject ms raw ∧ List.Forall₂ (Sole ms) keys values

/-- If this is an object at all, it has these keys. -/
def Requires (keys : List String) (raw : List UInt8) : Prop :=
  ∀ ms, JsonObject ms raw → keys ⊆ ms.map Prod.fst

theorem Record.requires {keys : List String} (h : Record keys items raw) : Requires keys raw := by
  intro ms' h'
  rcases h with ⟨harray, -⟩ | ⟨ms, hobject, hsole⟩
  · exact (h'.not_array harray).elim
  · obtain rfl := hobject.unique h'
    intro k hk
    obtain ⟨v, -, hv⟩ := exists_left_of_forall₂ (List.Forall₂.flip (R := flip (Sole ms)) hsole) hk
    exact List.mem_map.mpr ⟨_, Sole.mem hv, rfl⟩

/-- What the grammar calls a record is one with the names of the fields as keys. -/
theorem record_of_recordText {fields : List Field} (hvalue : ∀ f ∈ fields, ∀ v, f.2 v → Value v)
    (h : RecordText fields raw) :
    ∃ values, Record (fields.map Prod.fst) values raw ∧
      List.Forall₂ (fun f v => f.2 v) fields values := by
  rcases h with harray | ⟨ms, hobject, hfields, hothers⟩
  · obtain ⟨values, hjson, hvalues⟩ := jsonArray_of_arrayOf hvalue harray
    exact ⟨values, .inl ⟨hjson, by simp [hvalues.length_eq]⟩, hvalues⟩
  · choose! value hsole hfield using hfields
    have hall : ∀ m ∈ ms, Value m.2 := by
      intro m hm
      by_cases hname : m.1 ∈ fields.map Prod.fst
      · obtain ⟨f, hf, hfm⟩ := List.mem_map.mp hname
        rw [(hsole f hf).eq_of_mem hm hfm.symm]
        exact hvalue f hf _ (hfield f hf)
      · exact hothers m hm hname
    refine ⟨fields.map value, .inr ⟨ms, ⟨hobject, hall⟩, ?_⟩, ?_⟩
    · rw [List.forall₂_map_left_iff, List.forall₂_map_right_iff, List.forall₂_same]
      exact hsole
    · rw [List.forall₂_map_right_iff, List.forall₂_same]
      exact hfield

theorem Record.value {keys : List String} (h : Record keys items raw) : Value raw := by
  rcases h with ⟨harray, -⟩ | ⟨ms, hobject, -⟩
  · exact harray.value
  · exact hobject.value

/-! ## Documents -/

def entryKeys : List String := ["path", "classes", "imports"]

theorem record_of_entryText {f : SourceFile} (h : EntryText f raw) :
    ∃ values, Record entryKeys values raw := by
  obtain ⟨path, -, h⟩ := h
  have hnames : ∀ {names : List String} {v : List UInt8}, ArrayOf Spells names v → Value v := by
    intro names v hv
    obtain ⟨items, hjson, -⟩ := jsonArray_of_arrayOf (fun _ _ _ hs => value_of_spells hs) hv
    exact hjson.value
  obtain ⟨values, hrecord, -⟩ := record_of_recordText (by
    simp only [List.mem_cons, List.not_mem_nil, or_false, forall_eq_or_imp, forall_eq]
    exact ⟨fun _ => value_of_spells, fun _ => hnames, fun _ => hnames⟩) h
  exact ⟨values, hrecord⟩

theorem value_of_entryText {f : SourceFile} (h : EntryText f raw) : Value raw := by
  obtain ⟨values, hrecord⟩ := record_of_entryText h
  exact hrecord.value

/-- With blanks around it a value is still the same one. -/
theorem Padded.unique {bs : List UInt8} (h : Padded raw bs) (h' : Padded raw' bs) (hv : Value raw)
    (hv' : Value raw') : raw = raw' := by
  obtain ⟨ws, ws₁, hw, hw₁, rfl⟩ := h
  obtain ⟨ws', ws₁', hw', hw₁', htext⟩ := h'
  rw [List.append_assoc, List.append_assoc] at htext
  obtain ⟨-, hinner⟩ :=
    Blanks.unique hw hw' (separable_value.inked hv _) (separable_value.inked hv' _) htext
  have hbound := delimited_of_blanks hw₁ delimited_nil
  have hbound' := delimited_of_blanks hw₁' delimited_nil
  rw [List.append_nil] at hbound hbound'
  exact (hv.unique hv' hbound hbound' hinner).1

end TypeDeps.Document

namespace TypeDeps.Graph

open Json Document

/-- There is one value in this text, a record with the key of the files, and each of so many files
is a record with the keys of an entry. Where they are objects, they have these keys. -/
def Keyed (t : String) (count : Nat) : Prop :=
  ∃ raw files entries, Padded raw (bytesOf t) ∧
    (∀ raw', Padded raw' (bytesOf t) → Value raw' → raw' = raw) ∧
    Record ["files"] [files] raw ∧ Requires ["files"] raw ∧
    JsonArray entries files ∧ entries.length = count ∧
    ∀ e ∈ entries, (∃ values, Record entryKeys values e) ∧ Requires entryKeys e

/-- Every text that is accepted is keyed. -/
theorem keyed_of_read {t : String} {g : Graph} (h : Graph.read t = .ok g) : Keyed t g.size := by
  obtain ⟨raw, hrecord, hpadded⟩ := read_eq_ok_iff.mp h
  have hfiles : ∀ v, ArrayOf EntryText g.files v →
      ∃ entries, JsonArray entries v ∧ List.Forall₂ EntryText g.files entries :=
    fun v => jsonArray_of_arrayOf fun _ _ _ he => value_of_entryText he
  obtain ⟨values, hraw, hvalues⟩ := record_of_recordText (by
    simp only [List.mem_singleton, forall_eq]
    intro v hv
    obtain ⟨entries, hjson, -⟩ := hfiles v hv
    exact hjson.value) hrecord
  obtain ⟨files, nothing, hfilesText, hnothing, rfl⟩ := List.forall₂_cons_left_iff.mp hvalues
  obtain rfl := List.forall₂_nil_left_iff.mp hnothing
  obtain ⟨entries, hentries, hall⟩ := hfiles files hfilesText
  refine ⟨raw, files, entries, hpadded, fun raw' hraw' hv => ?_, hraw, hraw.requires, hentries,
    hall.length_eq.symm, fun e he => ?_⟩
  · exact Padded.unique hraw' hpadded hv hraw.value
  · obtain ⟨f, -, hf⟩ := exists_left_of_forall₂ hall he
    obtain ⟨values, hentry⟩ := record_of_entryText hf
    exact ⟨⟨values, hentry⟩, hentry.requires⟩

def keyedText : String :=
  "\x7b\"files\": [\x7b\"imports\": [], \"path\": \"A.java\", \"classes\": [\"pkg.A\"]\x7d, " ++
    "[\"B.java\", [], []]]\x7d"

theorem keyed_keyedText : Keyed keyedText 2 := by
  have hread : Graph.read keyedText =
      .ok ⟨[⟨.ofString "A.java", ["pkg.A"], []⟩, ⟨.ofString "B.java", [], []⟩]⟩ := by
    decide +kernel
  exact keyed_of_read hread

/-- Nothing in this text is an object. -/
def keylessText : String := "[[[\"A.java\", [], []]]]"

/-- So a text can be accepted that has none of the keys. -/
theorem keyless_text_is_accepted :
    ¬∀ (t : String) (g : Graph), Graph.read t = .ok g →
      ∃ raw ms files entries, Padded raw (bytesOf t) ∧ JsonObject ms raw ∧ ("files", files) ∈ ms ∧
        JsonArray entries files ∧
        ∀ e ∈ entries, ∃ ms, JsonObject ms e ∧ entryKeys ⊆ ms.map Prod.fst := by
  intro h
  have hread : Graph.read keylessText = .ok ⟨[⟨.ofString "A.java", [], []⟩]⟩ := by
    decide +kernel
  obtain ⟨raw, ms, -, -, ⟨ws, ws', -, -, htext⟩, ⟨⟨items, -, hraw⟩, -⟩, -⟩ := h _ _ hread
  have hbrace : 0x7B ∈ bytesOf keylessText := by
    rw [htext]
    have hmem := List.mem_of_head? (Enclosed.head hraw)
    simp [hmem]
  revert hbrace
  decide

end TypeDeps.Graph
