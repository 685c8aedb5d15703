import TypeDeps.Proofs.Document.Completeness
import TypeDeps.Proofs.Document.Soundness
import TypeDeps.Proofs.Text.Utf8

/-!
# The language of the reader

The reader decides the grammar of documents: it takes exactly the documents, and what it finds
in one are the files that the grammar says it holds.
-/
namespace TypeDeps.Document

theorem read_eq_ok_iff {src : Json.Source} {bs : List UInt8} {files : List SourceFile} :
    read src bs = .ok files ↔ DocumentText files bs :=
  ⟨documentText_of_read, read_of_documentText⟩

/-- A text is a document of one list of files at most. -/
theorem documentText_unique {bs : List UInt8} {fs gs : List SourceFile}
    (hf : DocumentText fs bs) (hg : DocumentText gs bs) : fs = gs :=
  have hread : read .text bs = .ok fs := read_eq_ok_iff.mpr hf
  Except.ok.inj (hread.symm.trans (read_eq_ok_iff.mpr hg))

end TypeDeps.Document

namespace TypeDeps.Graph

open Document

theorem readFrom_eq_ok_iff {src : Json.Source} {bs : List UInt8} {g : Graph} :
    Graph.readFrom src bs = .ok g ↔ DocumentText g.files bs := by
  obtain ⟨files⟩ := g
  have hread : Document.read src bs = .ok files ↔ DocumentText files bs := Document.read_eq_ok_iff
  rw [← hread, Graph.readFrom]
  cases Document.read src bs <;> simp

theorem readStream_eq_ok_iff {bs : List UInt8} {g : Graph} :
    Graph.readStream bs = .ok g ↔ DocumentText g.files bs := readFrom_eq_ok_iff

theorem read_eq_ok_iff {t : String} {g : Graph} :
    Graph.read t = .ok g ↔ DocumentText g.files (bytesOf t) := readFrom_eq_ok_iff

/-- Whatever a text does not say, it is malformed and nothing else. -/
theorem eq_malformed_of_read {t : String} {e : Error} (h : Graph.read t = .error e) :
    ∃ reason, e = .malformed reason := by
  unfold Graph.read Graph.readFrom at h
  split at h
  · cases h
  · exact ⟨_, (Except.error.inj h).symm⟩

/-- The texts of a graph are the documents that hold its files, and every text that is no
document of any graph is refused as malformed. -/
theorem read_iff_documentText (t : String) :
    (∀ g, Graph.read t = .ok g ↔ DocumentText g.files (bytesOf t)) ∧
    ((∃ g : Graph, DocumentText g.files (bytesOf t)) ∨
      ∃ reason, Graph.read t = .error (.malformed reason)) := by
  refine ⟨fun g => read_eq_ok_iff, ?_⟩
  cases h : Graph.read t with
  | ok g => exact .inl ⟨g, read_eq_ok_iff.mp h⟩
  | error e =>
    obtain ⟨reason, rfl⟩ := eq_malformed_of_read h
    exact .inr ⟨reason, rfl⟩

end TypeDeps.Graph
