import TypeDeps.Graph.Dot
import TypeDeps.Proofs.Text.Lossy

/-!
# Reading a drawing back

In the DOT language a string goes from a quote to the next one that has no backslash in front of
it. A quote behind a backslash stands for a quote, and everything else stands for itself. So a
backslash at the end of a path takes the closing quote along, and nothing else can go wrong. The
lines of a drawing are those of its statements all the same.
-/
namespace TypeDeps.Dot

/-- The path that a string names. -/
def pathOf (cs : List Char) : Path := .ofString (String.ofList cs)

/-- A string, as the path that it names, or a character outside of strings. -/
inductive Lexeme where
  | sign (c : Char)
  | quoted (p : Path)
  deriving DecidableEq, Repr

/-- What a text is divided into. Inside a string, `inside` holds the characters read so far, the
last one first. -/
def lexemes (inside : Option (List Char)) (cs : List Char) : Option (List Lexeme) :=
  match inside, cs with
  | none, [] => some []
  | some _, [] => none
  | some acc, '\\' :: '\x22' :: r => lexemes (some ('\x22' :: acc)) r
  | none, c :: r =>
    if c = '\x22' then lexemes (some []) r else (lexemes none r).map (.sign c :: ·)
  | some acc, c :: r =>
    if c = '\x22' then (lexemes none r).map (.quoted (pathOf acc.reverse) :: ·)
    else lexemes (some (c :: acc)) r

def signs (cs : List Char) : List Lexeme := cs.map .sign

def Statement.lexemes : Statement → List Lexeme
  | .node p => signs "  ".toList ++ .quoted p :: signs ";\n".toList
  | .edge p q =>
    signs "  ".toList ++ .quoted p :: (signs " -> ".toList ++ .quoted q :: signs ";\n".toList)

/-- The text is the drawing of these statements, if its strings are read by the rule. -/
def ReadsAs (text : String) (ss : List Statement) : Prop :=
  lexemes none text.toList = some (signs header ++ ss.flatMap Statement.lexemes ++ signs footer)

/-- The path can be told from its string: it is text, and no backslash ends it. -/
def Legible (p : Path) : Prop := ∃ cs, p = pathOf cs ∧ cs.getLast? ≠ some '\\'

def Statement.paths : Statement → List Path
  | .node p => [p]
  | .edge p q => [p, q]

variable {acc cs r : List Char} {ls : List Lexeme} {p : Path}

/-! ## Strings -/

theorem pathOf_injective : Function.Injective pathOf := fun cs ds h => by
  simpa using congrArg String.toList (bytesOf_injective (Path.mk.inj h))

theorem lexemes_close (acc r : List Char) :
    lexemes (some acc) ('\x22' :: r) =
      (lexemes none r).map (.quoted (pathOf acc.reverse) :: ·) := by
  rw [lexemes, if_pos rfl]
  simp

theorem lexemes_escaped (acc r : List Char) :
    lexemes (some acc) ('\\' :: '\x22' :: r) = lexemes (some ('\x22' :: acc)) r := by
  rw [lexemes]

theorem lexemes_plain {c : Char} (hc : c ≠ '\x22')
    (hr : c = '\\' → r.head? ≠ some '\x22') :
    lexemes (some acc) (c :: r) = lexemes (some (c :: acc)) r := by
  rw [lexemes, if_neg hc]
  rintro r' rfl rfl
  exact hr rfl rfl

/-- The characters read so far are the first ones of the string. -/
theorem lexemes_inside (h : lexemes (some acc) cs = some ls) :
    ∃ more ls', ls = .quoted (pathOf (acc.reverse ++ more)) :: ls' := by
  generalize hinside : some acc = inside at h
  induction inside, cs using lexemes.induct generalizing acc ls with
  | case1 | case4 | case5 => cases hinside
  | case2 => simp [lexemes] at h
  | case3 acc' r ih =>
    obtain rfl := Option.some.inj hinside
    obtain ⟨more, ls', rfl⟩ := ih rfl (lexemes_escaped acc r ▸ h)
    exact ⟨'\x22' :: more, ls', by simp⟩
  | case6 acc' r hescape =>
    obtain rfl := Option.some.inj hinside
    obtain ⟨ls', -, rfl⟩ := Option.map_eq_some_iff.mp (lexemes_close acc r ▸ h)
    exact ⟨[], ls', by simp⟩
  | case7 acc' c r hescape hc ih =>
    obtain rfl := Option.some.inj hinside
    rw [lexemes, if_neg hc] at h
    · obtain ⟨more, ls', rfl⟩ := ih rfl h
      exact ⟨c :: more, ls', by simp⟩
    · exact hescape

theorem escape_cons (c : Char) (cs : List Char) :
    escape (c :: cs) = (if c = '\x22' then ['\\', '\x22'] else [c]) ++ escape cs := rfl

/-- Only the quote at its end can follow a character directly. -/
theorem head?_escape (cs r : List Char) :
    (escape cs ++ '\x22' :: r).head? = some '\x22' ↔ cs = [] := by
  cases cs with
  | nil => simp [escape]
  | cons c cs =>
    rw [escape_cons]
    split_ifs with hc <;> simp [hc]

/-- A string that is written out is read back, unless a backslash ends it. -/
theorem lexemes_escape_iff :
    lexemes (some acc) (escape cs ++ '\x22' :: r) =
        some (.quoted (pathOf (acc.reverse ++ cs)) :: ls) ↔
      cs.getLast? ≠ some '\\' ∧ lexemes none r = some ls := by
  induction cs generalizing acc with
  | nil => simp [escape, lexemes_close]
  | cons c cs ih =>
    have hread : acc.reverse ++ c :: cs = (c :: acc).reverse ++ cs := by simp
    have hlast : (c :: cs).getLast? = some '\\' ↔
        cs.getLast? = some '\\' ∨ cs = [] ∧ c = '\\' := by
      cases cs <;> simp
    rw [hread, ne_eq, hlast, escape_cons]
    by_cases hquote : c = '\x22'
    · subst hquote
      have hne : ¬(cs = [] ∧ '\x22' = '\\') := by simp
      rw [if_pos rfl, List.append_assoc, List.cons_append, List.cons_append, List.nil_append,
        lexemes_escaped, ih, or_iff_left hne]
    rw [if_neg hquote, List.append_assoc, List.cons_append, List.nil_append]
    by_cases hclose : cs = [] ∧ c = '\\'
    · -- the closing quote is taken into the string
      obtain ⟨rfl, rfl⟩ := hclose
      refine iff_of_false (fun h => ?_) (by simp)
      obtain ⟨more, ls', heq⟩ := lexemes_inside (lexemes_escaped acc r ▸ h)
      have hstring := pathOf_injective (Lexeme.quoted.inj (List.cons.inj heq).1)
      simp at hstring
    · have hnext : c = '\\' → (escape cs ++ '\x22' :: r).head? ≠ some '\x22' :=
        fun hc hhead => hclose ⟨(head?_escape cs r).mp hhead, hc⟩
      rw [lexemes_plain hquote hnext, ih, or_iff_left hclose]

theorem lexemes_quote (p : Path) (r : List Char) : lexemes none (quote p ++ r) =
    lexemes (some []) (escape (Utf8.lossy p.bytes) ++ '\x22' :: r) := by
  have hquote : quote p ++ r = '\x22' :: (escape (Utf8.lossy p.bytes) ++ '\x22' :: r) := by
    simp [quote]
  rw [hquote, lexemes, if_pos rfl]

theorem lossy_pathOf (cs : List Char) : Utf8.lossy (pathOf cs).bytes = cs := by
  simp [pathOf, Path.ofString, bytesOf]

theorem lexemes_quote_iff :
    lexemes none (quote p ++ r) = some (.quoted p :: ls) ↔
      Legible p ∧ lexemes none r = some ls := by
  rw [lexemes_quote]
  constructor
  · intro h
    obtain ⟨cs, ls', heq⟩ := lexemes_inside h
    obtain rfl : p = pathOf cs := Lexeme.quoted.inj (List.cons.inj heq).1
    rw [lossy_pathOf] at h
    obtain ⟨hlast, hr⟩ := lexemes_escape_iff.mp h
    exact ⟨⟨cs, rfl, hlast⟩, hr⟩
  · rintro ⟨⟨cs, rfl, hlast⟩, hr⟩
    rw [lossy_pathOf]
    exact lexemes_escape_iff.mpr ⟨hlast, hr⟩

/-! ## Statements -/

theorem lexemes_signs_iff (hcs : '\x22' ∉ cs) :
    lexemes none (cs ++ r) = some (signs cs ++ ls) ↔ lexemes none r = some ls := by
  induction cs with
  | nil => simp [signs]
  | cons c cs ih =>
    rw [List.mem_cons, not_or] at hcs
    rw [← ih hcs.2, List.cons_append, lexemes, if_neg (Ne.symm hcs.1)]
    simp [signs]

theorem lexemes_statement_iff {s : Statement} :
    lexemes none (s.text ++ r) = some (s.lexemes ++ ls) ↔
      (∀ p ∈ s.paths, Legible p) ∧ lexemes none r = some ls := by
  cases s with
  | node p =>
    simp only [Statement.text, Statement.lexemes, Statement.paths, List.append_assoc,
      List.cons_append]
    rw [lexemes_signs_iff (by decide), lexemes_quote_iff, lexemes_signs_iff (by decide)]
    simp
  | edge p q =>
    simp only [Statement.text, Statement.lexemes, Statement.paths, List.append_assoc,
      List.cons_append]
    rw [lexemes_signs_iff (by decide), lexemes_quote_iff, lexemes_signs_iff (by decide),
      lexemes_quote_iff, lexemes_signs_iff (by decide)]
    simp [and_assoc]

theorem lexemes_statements_iff {ss : List Statement} :
    lexemes none (ss.flatMap Statement.text ++ r) =
        some (ss.flatMap Statement.lexemes ++ ls) ↔
      (∀ s ∈ ss, ∀ p ∈ s.paths, Legible p) ∧ lexemes none r = some ls := by
  induction ss with
  | nil => simp
  | cons s ss ih =>
    rw [List.flatMap_cons, List.flatMap_cons, List.append_assoc, List.append_assoc,
      lexemes_statement_iff, ih, List.forall_mem_cons, and_assoc]

/-- The statements can be told apart, and from the end of the drawing. -/
theorem lexemes_injective {ss ss' : List Statement}
    (h : ss.flatMap Statement.lexemes ++ signs footer =
      ss'.flatMap Statement.lexemes ++ signs footer) : ss = ss' := by
  induction ss generalizing ss' with
  | nil =>
    cases ss' with
    | nil => rfl
    | cons s ss' => cases s <;> simp [Statement.lexemes, signs, footer] at h
  | cons s ss ih =>
    cases ss' with
    | nil => cases s <;> simp [Statement.lexemes, signs, footer] at h
    | cons s' ss' =>
      cases s <;> cases s' <;> simp [Statement.lexemes, signs] at h
      · obtain ⟨rfl, h⟩ := h
        rw [ih (by simpa [signs] using h)]
      · obtain ⟨rfl, rfl, h⟩ := h
        rw [ih (by simpa [signs] using h)]

theorem ReadsAs.unique {text : String} {ss ss' : List Statement} (h : ReadsAs text ss)
    (h' : ReadsAs text ss') : ss = ss' := by
  have heq := Option.some.inj (h.symm.trans h')
  rw [List.append_assoc, List.append_assoc] at heq
  exact lexemes_injective (List.append_cancel_left heq)

theorem readsAs_statements_iff {g : Graph} :
    ReadsAs g.dot (statements g) ↔ ∀ s ∈ statements g, ∀ p ∈ s.paths, Legible p := by
  rw [ReadsAs, Graph.dot, String.toList_ofList, List.append_assoc, List.append_assoc,
    lexemes_signs_iff (by decide), lexemes_statements_iff, and_iff_left_iff_imp]
  intro _
  decide

/-- A drawing reads as its statements exactly if all the paths in them are legible. There is no
other list of statements that it reads as. -/
theorem dot_readsAs_iff (g : Graph) :
    (ReadsAs g.dot (statements g) ↔ ∀ s ∈ statements g, ∀ p ∈ s.paths, Legible p) ∧
    ∀ ss, ReadsAs g.dot (statements g) → ReadsAs g.dot ss → ss = statements g :=
  ⟨readsAs_statements_iff, fun _ h h' => h'.unique h⟩

/-- A file in a directory of another system, spelt with its separator at the end. -/
def unclosedGraph : Graph := ⟨[⟨.ofString "a\\", [], []⟩]⟩

/-- The string of a path that ends in a backslash has no end. -/
theorem unclosed_string_is_unreadable :
    ¬∀ g : Graph, (∀ f ∈ g.files, ∃ t, f.path = .ofString t) → ReadsAs g.dot (statements g) := by
  intro h
  have hread := h unclosedGraph fun f hf => by
    obtain rfl := List.mem_singleton.mp hf
    exact ⟨_, rfl⟩
  have hnone : lexemes none unclosedGraph.dot.toList = none := by decide +kernel
  rw [ReadsAs, hnone] at hread
  cases hread

/-! ## Lines -/

/-- How characters stand between quotes: a quote behind a backslash, all others as they are. -/
inductive Spelt : List Char → List Char → Prop where
  | nil : Spelt [] []
  | quote {cs ds : List Char} (h : Spelt cs ds) : Spelt ('\x22' :: cs) ('\\' :: '\x22' :: ds)
  | other {c : Char} {cs ds : List Char} (hc : c ≠ '\x22') (h : Spelt cs ds) :
    Spelt (c :: cs) (c :: ds)

/-- The line of a statement. A path that is no text is shown as nearly as text can. -/
inductive Line : Statement → List Char → Prop where
  | node {p : Path} {cs : List Char} (h : Spelt (Utf8.lossy p.bytes) cs) :
    Line (.node p) ("  \x22".toList ++ cs ++ "\x22;\n".toList)
  | edge {p q : Path} {cs ds : List Char} (hp : Spelt (Utf8.lossy p.bytes) cs)
    (hq : Spelt (Utf8.lossy q.bytes) ds) :
    Line (.edge p q) ("  \x22".toList ++ cs ++ "\x22 -> \x22".toList ++ ds ++ "\x22;\n".toList)

/-- The text has one line for each of the statements, in order, and nothing else in its braces.
This holds of every path, also of one that cannot be told from its string. -/
def Draws (text : String) (ss : List Statement) : Prop :=
  ∃ lines, List.Forall₂ Line ss lines ∧
    text.toList = "digraph module \x7b\n".toList ++ lines.flatten ++ "\x7d\n".toList

theorem spelt_escape (cs : List Char) : Spelt cs (escape cs) := by
  induction cs with
  | nil => exact .nil
  | cons c cs ih =>
    rw [escape_cons]
    split_ifs with hc
    · subst hc
      exact .quote ih
    · exact .other hc ih

theorem line_text (s : Statement) : Line s s.text := by
  cases s with
  | node p =>
    have hline := Line.node (spelt_escape (Utf8.lossy p.bytes))
    simpa [Statement.text, quote] using hline
  | edge p q =>
    have hline := Line.edge (spelt_escape (Utf8.lossy p.bytes)) (spelt_escape (Utf8.lossy q.bytes))
    simpa [Statement.text, quote] using hline

theorem draws_dot (g : Graph) : Draws g.dot (statements g) := by
  refine ⟨(statements g).map Statement.text, ?_, ?_⟩
  · rw [List.forall₂_map_right_iff, List.forall₂_same]
    exact fun s _ => line_text s
  · rw [Graph.dot, String.toList_ofList, List.flatMap_def]
    rfl

end TypeDeps.Dot
