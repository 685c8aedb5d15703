import TypeDeps.Proofs.Document.RoundTrip

/-!
# Where documents end

A document is over with its last bracket: behind it only blanks may come, and nothing but blanks
may be missing. So no document is the beginning of another one, apart from blanks. A stream that
fails may still have been the beginning of one, and then it is the failure that is reported. It is
malformed only if no more bytes could have made a document of it.
-/
namespace TypeDeps.Document

open Json

variable {s : State} {bs front back raw : List UInt8}
variable {files files' : List SourceFile} {src : Source}

/-! ## What may follow -/

theorem read_append_iff : read src (front ++ back) = .ok files ↔
    ∃ s, run .start 0 front = .ok s ∧ Runs s back (.finished files) := by
  rw [read_eq_ok_iff_runs, Runs, reads_append]
  exact exists_congr fun s => and_congr_left fun _ => run_eq_ok_iff.symm

theorem runs_finished_iff : Runs (.finished files) bs s ↔ Blanks bs ∧ s = .finished files := by
  induction bs with
  | nil =>
    have hnil : Runs (.finished files) [] s ↔ .finished files = s := by simp [Reads]
    rw [hnil]
    exact ⟨fun h => ⟨.nil, h.symm⟩, fun h => h.2.symm⟩
  | cons b bs ih =>
    rw [Runs, reads_cons]
    by_cases hb : isBlank b
    · have hstep : (State.step (.finished files) b).toOption = some (.finished files) := by
        simp [State.step, hb, Except.toOption]
      simp [hstep, ih, Blanks, hb]
    · have hstep : (State.step (.finished files) b).toOption = none := by
        simp [State.step, hb, State.stepToken, Except.toOption]
      simp [hstep, Blanks, hb]

/-- Only blanks may be put behind a document, and they change nothing. -/
theorem read_append_of_read (h : read src front = .ok files) :
    read src (front ++ back) = .ok files' ↔ Blanks back ∧ files' = files := by
  have hrun : run .start 0 front = .ok (.finished files) :=
    run_eq_ok_iff.mpr (read_eq_ok_iff_runs.mp h)
  rw [read_append_iff]
  constructor
  · rintro ⟨s, hs, hback⟩
    obtain rfl : .finished files = s := Except.ok.inj (hrun.symm.trans hs)
    obtain ⟨hblanks, hsame⟩ := runs_finished_iff.mp hback
    exact ⟨hblanks, State.finished.inj hsame⟩
  · rintro ⟨hblanks, rfl⟩
    exact ⟨_, hrun, runs_finished_iff.mpr ⟨hblanks, rfl⟩⟩

/-! ## Faults that are certain -/

theorem betweenTokens_of_isDecided (hs : s.isDecided) : s.betweenTokens := by
  cases s <;> first | rfl | cases hs

theorem exists_stepToken_error (hs : s.isDecided) (b : UInt8) : ∃ f, s.stepToken b = .error f := by
  cases s with
  | repeatedKey name =>
    simp only [State.stepToken]
    split_ifs <;> exact ⟨_, rfl⟩
  | surplusComma =>
    simp only [State.stepToken]
    split_ifs <;> exact ⟨_, rfl⟩
  | _ => cases hs

/-- Once a fault is certain, no document can come of the text any more. -/
theorem not_runs_of_isDecided (hs : s.isDecided) : ¬Runs s bs (.finished files) := by
  intro h
  induction bs with
  | nil =>
    obtain rfl : s = .finished files := by simpa [Reads] using h
    cases hs
  | cons b bs ih =>
    obtain ⟨t, ht, hr⟩ := reads_cons.mp h
    rw [State.step_of_betweenTokens (betweenTokens_of_isDecided hs)] at ht
    split_ifs at ht with hb
    · obtain rfl : s = t := Option.some.inj ht
      exact ih hr
    · obtain ⟨f, hf⟩ := exists_stepToken_error hs b
      simp [hf, Except.toOption] at ht

/-! ## The last bracket -/

theorem RecordText.exists_close {fields : List Field} (h : RecordText fields raw) :
    ∃ body c, raw = body ++ [c] ∧ isBlank c = false := by
  have hclose : ∀ {o c : UInt8} {items : List (List UInt8)}, isBlank c = false →
      Enclosed o c items raw → ∃ body c, raw = body ++ [c] ∧ isBlank c = false := by
    intro o c items hc he
    obtain ⟨st, body, -, -, rfl⟩ := he.part
    exact ⟨body, c, rfl, hc⟩
  rcases h with ⟨items, -, he⟩ | ⟨ms, ⟨items, -, he⟩, -⟩
  · exact hclose rfl he
  · exact hclose rfl he

/-- Blanks at the end of a document can be left out. -/
theorem DocumentText.of_append (h : DocumentText files (front ++ back)) (hback : Blanks back) :
    DocumentText files front := by
  obtain ⟨raw, hr, ws, ws', hw, hw', htext⟩ := h
  obtain ⟨body, c, rfl, hc⟩ := hr.exists_close
  rcases List.append_eq_append_iff.mp htext with ⟨rest, hbody, rfl⟩ | ⟨rest, rfl, rfl⟩
  · rcases List.eq_nil_or_concat rest with rfl | ⟨rest, last, rfl⟩
    · rw [List.append_nil] at hbody
      exact ⟨_, hr, ws, [], hw, .nil, by simp [hbody]⟩
    · -- the last bracket would be one of the blanks
      rw [List.concat_eq_append, ← List.append_assoc, ← List.append_assoc] at hbody
      obtain rfl : c = last := by simpa using (List.append_inj' hbody rfl).2
      have hlast := hback c (by simp)
      rw [hc] at hlast
      cases hlast
  · exact ⟨_, hr, ws, rest, hw, fun b hb => hw' b (List.mem_append_left _ hb), rfl⟩

end TypeDeps.Document

namespace TypeDeps.Graph

open Json Document

variable {bs more front back : List UInt8} {g : Graph} {t : String}

/-- There is no graph in the stream. -/
def IsMalformed (bs : List UInt8) : Prop :=
  ∃ reason, Graph.readStream bs = .error (.malformed reason)

theorem isMalformed_of_ne (h : ∀ g, Graph.readStream bs ≠ .ok g) : IsMalformed bs := by
  unfold IsMalformed Graph.readStream Graph.readFrom at *
  split
  · next files hread => exact absurd (by rw [hread]) (h ⟨files⟩)
  · exact ⟨_, rfl⟩

theorem readStream_iff_read :
    Graph.readStream bs = .ok g ↔ Document.read .stream bs = .ok g.files :=
  readStream_eq_ok_iff.trans Document.read_eq_ok_iff.symm

/-! ## Streams that fail -/

theorem readBroken_cases (bs : List UInt8) (failure : StorageFailure) :
    Graph.readBroken bs failure = .error (.storage failure) ∨
      ∃ reason, Graph.readBroken bs failure = .error (.malformed reason) := by
  unfold Graph.readBroken
  split
  · exact .inr ⟨_, rfl⟩
  · split
    · exact .inr ⟨_, rfl⟩
    · exact .inl rfl

theorem readBroken_of_readStream (h : Graph.readStream (bs ++ more) = .ok g)
    (failure : StorageFailure) : Graph.readBroken bs failure = .error (.storage failure) := by
  obtain ⟨s, hs, hmore⟩ := read_append_iff.mp (readStream_iff_read.mp h)
  have hdecided : s.isDecided = false := by
    by_contra hdecided
    exact not_runs_of_isDecided (by simpa using hdecided) hmore
  simp [Graph.readBroken, hs, hdecided]

/-- A stream that fails never gives a graph. If more bytes could have made a document of it, the
failure is reported, and if it is malformed, it is so whatever follows. -/
theorem broken_stream_reports_failure (bs : List UInt8) (failure : StorageFailure) :
    (Graph.readBroken bs failure = .error (.storage failure) ∨
      ∃ reason, Graph.readBroken bs failure = .error (.malformed reason)) ∧
    (∀ more g, Graph.readStream (bs ++ more) = .ok g →
      Graph.readBroken bs failure = .error (.storage failure)) ∧
    (∀ reason, Graph.readBroken bs failure = .error (.malformed reason) →
      ∀ more, IsMalformed (bs ++ more)) := by
  refine ⟨readBroken_cases bs failure, fun more g hg => readBroken_of_readStream hg failure,
    fun reason hreason more => isMalformed_of_ne fun g hg => ?_⟩
  have hfailure := hreason.symm.trans (readBroken_of_readStream hg failure)
  cases hfailure

/-- A stream that fails behind an escape within a value that is skipped, and one that names its
files twice before it fails. -/
theorem broken_stream_reports_failure_of_samples :
    Graph.readBroken (bytesOf "\x7b\"files\": [], \"x\": [\"\\u00") (.other "reader failed") =
        .error (.storage (.other "reader failed")) ∧
      ∃ reason, Graph.readBroken (bytesOf "\x7b\"files\": [], \"files\"") (.other "reader failed") =
          .error (.malformed reason) ∧
        IsMalformed (bytesOf "\x7b\"files\": [], \"files\"" ++ bytesOf ": []\x7d") := by
  obtain ⟨-, hfailure, -⟩ := broken_stream_reports_failure
    (bytesOf "\x7b\"files\": [], \"x\": [\"\\u00") (.other "reader failed")
  obtain ⟨-, -, hmalformed⟩ := broken_stream_reports_failure
    (bytesOf "\x7b\"files\": [], \"files\"") (.other "reader failed")
  have hcontinued : Graph.readStream
      (bytesOf "\x7b\"files\": [], \"x\": [\"\\u00" ++ bytesOf "e9\"]\x7d") = .ok ⟨[]⟩ := by
    decide +kernel
  have hrepeated : Graph.readBroken (bytesOf "\x7b\"files\": [], \"files\"")
      (.other "reader failed") =
        .error (.malformed "duplicate field `files` at line 1 column 21") := by
    decide +kernel
  exact ⟨hfailure _ _ hcontinued, _, hrepeated, hmalformed _ hrepeated _⟩

/-! ## Documents that are cut or continued -/

theorem readStream_of_append (h : Graph.readStream (front ++ back) = .ok g) (hback : Blanks back) :
    Graph.readStream front = .ok g :=
  readStream_eq_ok_iff.mpr ((readStream_eq_ok_iff.mp h).of_append hback)

theorem isMalformed_of_cut (h : Graph.readStream (front ++ back) = .ok g) (hback : ¬Blanks back) :
    IsMalformed front :=
  isMalformed_of_ne fun _ hfront =>
    hback ((read_append_of_read (readStream_iff_read.mp hfront)).mp (readStream_iff_read.mp h)).1

theorem readStream_append (h : Graph.readStream bs = .ok g) (hmore : Blanks more) :
    Graph.readStream (bs ++ more) = .ok g :=
  readStream_iff_read.mpr ((read_append_of_read (readStream_iff_read.mp h)).mpr ⟨hmore, rfl⟩)

theorem isMalformed_append (h : Graph.readStream bs = .ok g) (hmore : ¬Blanks more) :
    IsMalformed (bs ++ more) :=
  isMalformed_of_ne fun _ happend =>
    hmore ((read_append_of_read (readStream_iff_read.mp h)).mp (readStream_iff_read.mp happend)).1

/-- A written document ends with a brace and a line break. -/
theorem exists_of_write (h : g.write = .ok t) : ∃ body, bytesOf t = body ++ [0x7D, 0x0A] := by
  obtain ⟨entries, -, rfl⟩ := write_eq_ok_iff.mp h
  have hend : Utf8.encode ['\x7d'] ++ Utf8.encode ['\n'] = [0x7D, 0x0A] := by decide
  rw [bytesOf, String.toList_ofList, Document.document, block]
  simp only [List.isEmpty_cons, Bool.false_eq_true, if_false, encode_append, List.append_assoc,
    hend]
  rw [← List.append_assoc]
  exact ⟨_, rfl⟩

/-- The only blank that a written document can lack is its last line break. -/
theorem blanks_cut_iff (h : g.write = .ok t) (ht : front ++ back = bytesOf t) (hne : back ≠ []) :
    Blanks back ↔ back = [0x0A] := by
  obtain ⟨body, hbody⟩ := exists_of_write h
  obtain ⟨init, last, rfl⟩ := (List.eq_nil_or_concat back).resolve_left hne
  rw [List.concat_eq_append] at ht ⊢
  rw [hbody, List.append_cons body, ← List.append_assoc] at ht
  obtain ⟨hinit, hlast⟩ := List.append_inj' ht rfl
  obtain rfl : last = 0x0A := by simpa using hlast
  rcases List.eq_nil_or_concat init with rfl | ⟨init, brace, rfl⟩
  · have hbreak : Blanks [0x0A] := by simp [Blanks, isBlank]
    simpa using hbreak
  · rw [List.concat_eq_append, ← List.append_assoc] at hinit
    obtain rfl : brace = 0x7D := by simpa using (List.append_inj' hinit rfl).2
    constructor
    · intro hblanks
      have hbrace := hblanks 0x7D (by simp)
      cases hbrace
    · intro hback
      have hlength := congrArg List.length hback
      simp at hlength

/-- A part of a document is one exactly if it lacks nothing but blanks, and a document with more
behind it is one exactly if these are blanks. A written document can lack its last line break. -/
theorem document_extent (g : Graph) :
    (∀ bs, Graph.readStream bs = .ok g → ∀ front back, front ++ back = bs →
      (Blanks back ∧ Graph.readStream front = .ok g) ∨ (¬Blanks back ∧ IsMalformed front)) ∧
    (∀ bs, Graph.readStream bs = .ok g → ∀ more,
      (Blanks more ∧ Graph.readStream (bs ++ more) = .ok g) ∨
        (¬Blanks more ∧ IsMalformed (bs ++ more))) ∧
    (∀ t, g.write = .ok t → ∀ front back, front ++ back = bytesOf t → back ≠ [] →
      (back = [0x0A] ∧ Graph.readStream front = .ok g) ∨
        (back ≠ [0x0A] ∧ IsMalformed front)) := by
  have hcut : ∀ bs, Graph.readStream bs = .ok g → ∀ front back, front ++ back = bs →
      (Blanks back ∧ Graph.readStream front = .ok g) ∨ (¬Blanks back ∧ IsMalformed front) := by
    rintro bs h front back rfl
    by_cases hback : Blanks back
    · exact .inl ⟨hback, readStream_of_append h hback⟩
    · exact .inr ⟨hback, isMalformed_of_cut h hback⟩
  refine ⟨hcut, fun bs h more => ?_, fun t ht front back htext hne => ?_⟩
  · by_cases hmore : Blanks more
    · exact .inl ⟨hmore, readStream_append h hmore⟩
    · exact .inr ⟨hmore, isMalformed_append h hmore⟩
  · have hread := readStream_eq_ok_iff.mpr (documentText_write ht)
    have hblanks := blanks_cut_iff ht htext hne
    simpa only [hblanks, ne_eq] using hcut _ hread front back htext

/-- A document with a character of two bytes in a value that is skipped. It is cut within that
character, cut before its last line break, and continued with a letter. And the document of no
files, without its last brace. -/
theorem document_extent_sample :
    IsMalformed (bytesOf "\x7b\"files\": [], \"x\": \"" ++ [0xC3]) ∧
      Graph.readStream (bytesOf "\x7b\"files\": [], \"x\": \"é\"\x7d") = .ok ⟨[]⟩ ∧
      IsMalformed (bytesOf "\x7b\"files\": [], \"x\": \"é\"\x7d\n" ++ bytesOf "e") ∧
      IsMalformed (bytesOf "\x7b\n  \"files\": []\n") := by
  have hread : Graph.readStream (bytesOf "\x7b\"files\": [], \"x\": \"é\"\x7d\n") = .ok ⟨[]⟩ := by
    decide +kernel
  have hwrite : Graph.write ⟨[]⟩ = .ok "\x7b\n  \"files\": []\n\x7d\n" := by decide +kernel
  obtain ⟨hcut, hcontinued, hwritten⟩ := document_extent ⟨[]⟩
  refine ⟨?_, ?_, ?_, ?_⟩
  · refine ((hcut _ hread _ (0xA9 :: bytesOf "\"\x7d\n") (by decide +kernel)).resolve_left ?_).2
    exact fun h => absurd h.1 (by decide +kernel)
  · refine ((hcut _ hread _ [0x0A] (by decide +kernel)).resolve_right ?_).2
    exact fun h => absurd (by decide +kernel) h.1
  · refine ((hcontinued _ hread (bytesOf "e")).resolve_left ?_).2
    exact fun h => absurd h.1 (by decide +kernel)
  · refine ((hwritten _ hwrite _ [0x7D, 0x0A] (by decide +kernel) (by simp)).resolve_left ?_).2
    exact fun h => absurd h.1 (by decide)

end TypeDeps.Graph
