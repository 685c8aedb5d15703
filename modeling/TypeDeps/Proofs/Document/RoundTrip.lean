import TypeDeps.Document.Writer
import TypeDeps.Proofs.Document.Language
import TypeDeps.Proofs.Json.QuotedText

/-!
# Writing and reading back

What the writer puts down is a document in the sense of the grammar, so that reading it gives
back the graph it was written for.
-/
namespace TypeDeps.Document

open Json

/-! ## The bytes of written brackets -/

@[simp] theorem encode_append (cs ds : List Char) :
    Utf8.encode (cs ++ ds) = Utf8.encode cs ++ Utf8.encode ds := by
  simp [Utf8.encode]

theorem encode_cons (c : Char) (cs : List Char) :
    Utf8.encode (c :: cs) = String.utf8EncodeChar c ++ Utf8.encode cs := rfl

theorem encode_intercalate (items : List (List Char)) :
    Utf8.encode (List.intercalate [','] items) =
      List.intercalate [0x2C] (items.map Utf8.encode) := by
  induction items using List.reverseRecOn with
  | nil => rfl
  | append_singleton items x ih =>
    by_cases hne : items = []
    · subst hne
      simp [List.intercalate]
    · have hmap : items.map Utf8.encode ≠ [] := by simpa using hne
      rw [intercalate_snoc _ _ hne, List.map_append, List.map_singleton,
        intercalate_snoc _ _ hmap, encode_append, encode_append, ih]
      rfl

theorem blanks_newline (level : Nat) : Blanks (Utf8.encode (newline level)) := by
  have hbreak : String.utf8EncodeChar '\n' = [0x0A] := rfl
  have hspace : String.utf8EncodeChar ' ' = [0x20] := rfl
  intro b hb
  obtain ⟨c, hc, hb⟩ := List.mem_flatMap.mp hb
  rcases List.mem_cons.mp hc with rfl | hc
  · obtain rfl := List.mem_singleton.mp (hbreak ▸ hb)
    rfl
  · rw [List.eq_of_mem_replicate hc, hspace] at hb
    obtain rfl := List.mem_singleton.mp hb
    rfl

theorem enclosed_block {open_ close : Char} {o c : UInt8} (level : Nat) (items : List (List Char))
    (ho : String.utf8EncodeChar open_ = [o]) (hc : String.utf8EncodeChar close = [c]) :
    Enclosed o c (items.map Utf8.encode) (Utf8.encode (block open_ close level items)) := by
  unfold block
  split_ifs with hempty
  · obtain rfl : items = [] := by simpa using hempty
    exact .inl ⟨rfl, [], .nil, by simp [Utf8.encode, ho, hc]⟩
  · have hjoined : Joined o (items.map Utf8.encode) (o :: List.intercalate [0x2C]
        (items.map fun x => Utf8.encode (newline (level + 1)) ++ Utf8.encode x)) := by
      refine ⟨by simpa using hempty, _, ?_, rfl⟩
      rw [List.forall₂_map_left_iff, List.forall₂_map_right_iff, List.forall₂_same]
      exact fun x _ => ⟨_, [], blanks_newline (level + 1), .nil, by simp⟩
    have hclosed := (hjoined.part.blanks (blanks_newline level)).close (c := c) (by simp)
    have hnil : Utf8.encode [] = [] := rfl
    simpa [encode_cons, encode_intercalate, ho, hc, hnil, Function.comp_def] using hclosed

/-! ## The text of a graph -/

theorem pairText_member (name : String) (value : List Char) :
    MemberText (name, Utf8.encode value) (Utf8.encode (member name value)) := by
  refine ⟨_, spells_quote name, [], [0x20], .nil, Blanks.nil.snoc rfl, ?_⟩
  have hcolon : Utf8.encode ": ".toList = [0x3A, 0x20] := rfl
  rw [member, encode_append, encode_append, hcolon]
  simp

theorem arrayOf_names (level : Nat) (ns : List String) :
    ArrayOf Spells ns (Utf8.encode (names level ns)) := by
  refine ⟨_, ?_, enclosed_block level (ns.map quote) rfl rfl⟩
  rw [List.map_map, List.forall₂_map_right_iff, List.forall₂_same]
  exact fun s _ => spells_quote s

theorem objectOf_block (level : Nat) (ms : List (String × List Char)) :
    ObjectOf MemberText (ms.map fun m => (m.1, Utf8.encode m.2))
      (Utf8.encode (block '\x7b' '\x7d' level (ms.map fun m => member m.1 m.2))) := by
  refine ⟨_, ?_, enclosed_block level _ rfl rfl⟩
  rw [List.map_map, List.forall₂_map_left_iff, List.forall₂_map_right_iff, List.forall₂_same]
  exact fun m _ => pairText_member m.1 m.2

theorem entryText_entry {f : SourceFile} {path : String} (h : f.path = .ofString path) :
    EntryText f (Utf8.encode (entry path f)) := by
  refine ⟨path, h, .inr ⟨_, objectOf_block 2 [("path", quote path),
    ("classes", names 3 f.declares), ("imports", names 3 f.references)], ?_, ?_⟩⟩
  · simp [Sole, spells_quote, arrayOf_names]
  · simp

theorem path_of_text? {p : Path} {s : String} : p.text? = some s ↔ p = .ofString s := by
  obtain ⟨bytes⟩ := p
  rw [Path.text?, stringOf?_eq_some_iff]
  simp [Path.ofString]

theorem documentText_document {files : List SourceFile} {entries : List (List Char)}
    (h : List.Forall₂ (fun f e => entryOf? f = some e) files entries) :
    DocumentText files (Utf8.encode (document entries)) := by
  have hentries : List.Forall₂ EntryText files (entries.map Utf8.encode) := by
    rw [List.forall₂_map_right_iff]
    refine h.imp fun f e he => ?_
    obtain ⟨path, hpath, rfl⟩ := Option.map_eq_some_iff.mp he
    exact entryText_entry (path_of_text?.mp hpath)
  have hfiles : ArrayOf EntryText files (Utf8.encode (block '[' ']' 1 entries)) :=
    ⟨_, hentries, enclosed_block 1 entries rfl rfl⟩
  refine ⟨_, .inr ⟨_, objectOf_block 0 [("files", block '[' ']' 1 entries)], ?_, ?_⟩, [], [0x0A],
    .nil, Blanks.nil.snoc rfl, ?_⟩
  · simp [Sole, hfiles]
  · simp
  · have hbreak : Utf8.encode ['\n'] = [0x0A] := rfl
    simp [document, hbreak]

end TypeDeps.Document

namespace TypeDeps.Graph

open Document Json

theorem mapM_eq_some_iff {α β : Type} {f : α → Option β} {xs : List α} {ys : List β} :
    xs.mapM f = some ys ↔ List.Forall₂ (fun x y => f x = some y) xs ys := by
  induction xs generalizing ys with
  | nil => simp [eq_comm]
  | cons x xs ih =>
    rw [List.mapM_cons]
    cases ys with
    | nil => simp [Option.bind_eq_some_iff]
    | cons y ys => simp [Option.bind_eq_some_iff, ih]

theorem write_eq_ok_iff {g : Graph} {t : String} :
    g.write = .ok t ↔ ∃ entries, List.Forall₂ (fun f e => entryOf? f = some e) g.files entries ∧
      t = String.ofList (document entries) := by
  simp only [write, ← mapM_eq_some_iff]
  cases g.files.mapM entryOf? with
  | none => simp
  | some entries => simp [eq_comm]

/-- Paths are the only reason why a graph has no document. -/
theorem exists_write_iff {g : Graph} :
    (∃ t, g.write = .ok t) ↔ ∀ f ∈ g.files, ∃ s, f.path = .ofString s := by
  have hentry : ∀ f : SourceFile, (∃ e, entryOf? f = some e) ↔ ∃ s, f.path = .ofString s := by
    intro f
    simp only [entryOf?, Option.map_eq_some_iff, path_of_text?]
    exact ⟨fun ⟨_, s, hs, _⟩ => ⟨s, hs⟩, fun ⟨s, hs⟩ => ⟨_, s, hs, rfl⟩⟩
  constructor
  · rintro ⟨t, ht⟩ f hf
    obtain ⟨entries, hentries, -⟩ := write_eq_ok_iff.mp ht
    obtain ⟨e, -, he⟩ := exists_left_of_forall₂ hentries.flip hf
    exact (hentry f).mp ⟨e, he⟩
  · intro h
    choose! e he using fun f hf => (hentry f).mpr (h f hf)
    refine ⟨_, write_eq_ok_iff.mpr ⟨g.files.map e, ?_, rfl⟩⟩
    rw [List.forall₂_map_right_iff, List.forall₂_same]
    exact he

theorem documentText_write {g : Graph} {t : String} (h : g.write = .ok t) :
    DocumentText g.files (bytesOf t) := by
  obtain ⟨entries, hentries, rfl⟩ := write_eq_ok_iff.mp h
  rw [bytesOf, String.toList_ofList]
  exact documentText_document hentries

/-- What a text says has a document of its own: its paths are text. -/
theorem exists_write_of_documentText {g : Graph} {bs : List UInt8}
    (h : DocumentText g.files bs) : ∃ t, g.write = .ok t := by
  have hentry : ∀ {fs : List SourceFile} {raw}, ArrayOf EntryText fs raw →
      ∀ f ∈ fs, ∃ s, f.path = .ofString s := by
    rintro fs raw ⟨items, hitems, -⟩ f hf
    obtain ⟨raw', -, path, hpath, -⟩ := exists_left_of_forall₂ hitems.flip hf
    exact ⟨path, hpath⟩
  obtain ⟨raw, hr, -⟩ := h
  rw [exists_write_iff]
  rcases hr with ⟨items, hitems, -⟩ | ⟨ms, -, hfields, -⟩
  · obtain ⟨_, -, hf⟩ := exists_left_of_forall₂ hitems.flip (List.mem_singleton.mpr rfl)
    exact hentry hf
  · obtain ⟨v, -, hv⟩ := hfields _ (List.mem_singleton.mpr rfl)
    exact hentry hv

/-- A graph has a document exactly if its paths are text, and the document, as a text or as a
stream, says this graph. The other way round, what a text says can be written, the new text
says the same, and it is the old one exactly if that was the document of a graph. -/
theorem write_read_roundtrip (g : Graph) :
    ((∃ t, g.write = .ok t) ↔ ∀ f ∈ g.files, ∃ s, f.path = .ofString s) ∧
    (∀ t, g.write = .ok t → Graph.read t = .ok g ∧ Graph.readStream (bytesOf t) = .ok g) ∧
    (∀ t, Graph.read t = .ok g →
      ∃ u, g.write = .ok u ∧ Graph.read u = .ok g ∧ (u = t ↔ ∃ g' : Graph, g'.write = .ok t)) := by
  have hback : ∀ {g : Graph} {t}, g.write = .ok t → Graph.read t = .ok g :=
    fun h => read_eq_ok_iff.mpr (documentText_write h)
  refine ⟨exists_write_iff, fun t ht => ⟨hback ht, ?_⟩, fun t ht => ?_⟩
  · exact readStream_eq_ok_iff.mpr (documentText_write ht)
  · obtain ⟨u, hu⟩ := exists_write_of_documentText (read_eq_ok_iff.mp ht)
    refine ⟨u, hu, hback hu, ?_⟩
    constructor
    · rintro rfl
      exact ⟨g, hu⟩
    · rintro ⟨g', hg'⟩
      obtain rfl : g' = g := Except.ok.inj ((hback hg').symm.trans ht)
      exact Except.ok.inj (hu.symm.trans hg')

/-- A file that is listed twice, with names that have to be escaped. -/
def sampleGraph : Graph :=
  let file : SourceFile := ⟨.ofString "a \"b\"\\c", ["\x00\n", "😀", "😀"], []⟩
  ⟨[file, file]⟩

theorem write_read_roundtrip_sample :
    ∃ t, sampleGraph.write = .ok t ∧ Graph.read t = .ok sampleGraph ∧
      Graph.readStream (bytesOf t) = .ok sampleGraph ∧
      ∃ u, sampleGraph.write = .ok u ∧ Graph.read u = .ok sampleGraph ∧ u = t := by
  obtain ⟨hwrite, hread, hback⟩ := write_read_roundtrip sampleGraph
  obtain ⟨t, ht⟩ := hwrite.mpr fun f hf => by
    simp only [sampleGraph, List.mem_cons, List.not_mem_nil, or_false, or_self] at hf
    exact ⟨_, congrArg SourceFile.path hf⟩
  obtain ⟨htext, hstream⟩ := hread t ht
  obtain ⟨u, hu, hsame, hcanonical⟩ := hback t htext
  exact ⟨t, ht, htext, hstream, u, hu, hsame, hcanonical.mpr ⟨sampleGraph, ht⟩⟩

end TypeDeps.Graph
