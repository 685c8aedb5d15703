import TypeDeps.Proofs.Document.RoundTrip
import TypeDeps.Proofs.Disk.Work
import TypeDeps.Proofs.Yaml.Documents
import TypeDeps.Proofs.Yaml.Lines
import TypeDeps.Settings.File

/-!
# Settings that are read back

Whatever strings settings hold, the file they are written to reads as the same settings. The
text of the file is followed through the three steps of reading: its tokens, the items of the
document, and what the items say.
-/
namespace TypeDeps.Settings

open Yaml Scanner

variable {s : Scanner} {R : List Char} {kinds : List TokenKind} {field : Field} {value : String}
  {ps : List String}

/-! ## Tokens -/

/-- A written string, which is plain or not. -/
def scalarToken (value : String) : TokenKind :=
  .scalar value.toList (styleOf value.toList = .plain)

def memberTokens (field : Field) (value : String) : List TokenKind :=
  [.key, .scalar field.name.toList true, .value, scalarToken value]

def prefixTokens (ps : List String) : List TokenKind :=
  [.key, .scalar Field.excludedPrefixes.name.toList true, .value] ++
    if ps.isEmpty then [.flowSequenceStart, .flowSequenceEnd]
    else ps.flatMap fun p => [.blockEntry, scalarToken p]

theorem isKey_name (field : Field) : IsKey field.name.toList := by
  cases field <;> exact ⟨by decide, by decide, _, _, rfl, fun r => rfl⟩

theorem beginsLine_name (field : Field) (r : List Char) : BeginsLine (field.name.toList ++ r) := by
  cases field <;> simp [BeginsLine, Field.name, isNameChar]

theorem reads_member (h : Ahead s (member field value ++ R) true true [0] kinds)
    (hR : BeginsLine R) :
    ∃ u, Reaches s u ∧ Ahead u R true true [0] (kinds ++ memberTokens field value) := by
  rw [member, List.append_assoc, List.cons_append] at h
  exact h.reads_member (isKey_name field) (.inr rfl) hR

/-- The first line of a file opens the mapping. -/
theorem reads_firstMember (h : Ahead s (member field value ++ R) true true [] kinds)
    (hR : BeginsLine R) :
    ∃ u, Reaches s u ∧
      Ahead u R true true [0] (kinds ++ .blockMappingStart :: memberTokens field value) := by
  rw [member, List.append_assoc, List.cons_append] at h
  exact h.reads_member (isKey_name field) (.inl rfl) hR

theorem beginsLine_items (items : List (List Char)) :
    BeginsLine (items.flatMap fun cs => '-' :: scalarLine cs) := by
  cases items <;> simp [BeginsLine, isNameChar]

theorem reads_prefixLines (h : Ahead s (prefixLines ps) true true [0] kinds) :
    ∃ u, Reaches s u ∧ Ahead u [] true true [0] (kinds ++ prefixTokens ps) := by
  have hnil : BeginsLine [] := beginsLine_items []
  unfold prefixLines at h
  unfold prefixTokens
  by_cases hps : ps.isEmpty
  · have hsign : ": []\n".toList = ':' :: ' ' :: '[' :: ']' :: '\n' :: [] := rfl
    rw [if_pos hps, hsign] at h
    obtain ⟨t, hkey, ht⟩ := h.reads_key (isKey_name _) rfl (.inr rfl)
    obtain ⟨u, hlist, hu⟩ := ht.reads_emptyList hnil
    exact ⟨u, hkey.trans hlist, by simpa [hps] using hu⟩
  · have hsign : ":\n".toList = ':' :: '\n' :: [] := rfl
    have hitems : (ps.flatMap fun p => '-' :: scalarLine p.toList) =
        (ps.map String.toList).flatMap fun cs => '-' :: scalarLine cs := by
      rw [List.flatMap_map]
    rw [if_neg hps, hsign, hitems, List.append_assoc] at h
    obtain ⟨t, hkey, ht⟩ := h.reads_key (isKey_name _) rfl (.inr rfl)
    have hahead := ht.ahead_line (beginsLine_items _)
    rw [← List.append_nil (List.flatMap _ _)] at hahead
    obtain ⟨u, hlist, hu⟩ := hahead.reads_items hnil
    exact ⟨u, hkey.trans hlist, by simpa [hps, List.flatMap_map, scalarToken] using hu⟩

/-- The text of a settings file. -/
def content (dir : String) (s : Settings) : List Char :=
  member .outputDir dir ++ (member .moduleKey s.moduleKey ++
    (member .cacheMode s.cacheMode.name ++ prefixLines s.excludedPrefixes))

theorem isAllowed_member (field : Field) (value : String) :
    ∀ c ∈ member field value, isAllowed c := by
  have hname : ∀ c ∈ field.name.toList, isAllowed c := by
    cases field <;> simp [Field.name, isAllowed]
  exact List.forall_mem_append.mpr ⟨hname, List.forall_mem_cons.mpr
    ⟨by decide, isAllowed_scalarLine value.toList⟩⟩

theorem isAllowed_prefixLines (ps : List String) : ∀ c ∈ prefixLines ps, isAllowed c := by
  have hname : ∀ c ∈ Field.excludedPrefixes.name.toList, isAllowed c := by
    simp [Field.name, isAllowed]
  unfold prefixLines
  split
  · exact List.forall_mem_append.mpr ⟨hname, by simp [isAllowed]⟩
  · refine List.forall_mem_append.mpr ⟨List.forall_mem_append.mpr ⟨hname, by simp [isAllowed]⟩, ?_⟩
    intro c hc
    obtain ⟨p, -, hc⟩ := List.mem_flatMap.mp hc
    exact List.forall_mem_cons.mpr ⟨by decide, isAllowed_scalarLine p.toList⟩ c hc

theorem kinds_content (dir : String) (s : Settings) :
    (tokens (content dir s)).map Token.kind =
      [.blockMappingStart] ++ memberTokens .outputDir dir ++ memberTokens .moduleKey s.moduleKey ++
        memberTokens .cacheMode s.cacheMode.name ++ prefixTokens s.excludedPrefixes ++
        [.blockEnd, .streamEnd] := by
  have hmember (field : Field) (value : String) (r : List Char) :
      BeginsLine (member field value ++ r) := by
    rw [member, List.append_assoc]
    exact beginsLine_name field _
  have hprefixes : BeginsLine (prefixLines s.excludedPrefixes) := by
    unfold prefixLines
    split
    · exact beginsLine_name _ _
    · rw [List.append_assoc]
      exact beginsLine_name _ _
  have hallowed : ∀ c ∈ content dir s, isAllowed c := by
    simp only [content, List.forall_mem_append]
    exact ⟨isAllowed_member _ _, isAllowed_member _ _, isAllowed_member _ _,
      isAllowed_prefixLines _⟩
  obtain ⟨t₁, hdir, h₁⟩ := reads_firstMember (ahead_start (hmember _ _ _)) (hmember _ _ _)
  obtain ⟨t₂, hkey, h₂⟩ := reads_member h₁ (hmember _ _ _)
  obtain ⟨t₃, hmode, h₃⟩ := reads_member h₂ hprefixes
  obtain ⟨t₄, hlist, h₄⟩ := reads_prefixLines h₃
  have hreach := ((hdir.trans hkey).trans hmode).trans hlist
  simpa using kinds_tokens hallowed hreach h₄

/-! ## Items -/

def scalarItem (value : String) : ItemKind :=
  .scalar none value.toList (styleOf value.toList = .plain)

def memberItems (field : Field) (value : String) : List ItemKind :=
  [.scalar none field.name.toList true, scalarItem value]

/-- A list without items is the same here as any other one. -/
def prefixItems (ps : List String) : List ItemKind :=
  [.scalar none Field.excludedPrefixes.name.toList true, .sequence none] ++ ps.map scalarItem ++
    [.close]

theorem leads_member (hs : Handles) (field : Field) (value : String) :
    Leads (.document hs [.blockKey]) (memberTokens field value) (memberItems field value)
      (.document hs [.blockKey]) := Yaml.leads_member

theorem leads_prefixes (hs : Handles) (ps : List String) :
    Leads (.document hs [.blockKey]) (prefixTokens ps ++ [.blockEnd, .streamEnd])
      (prefixItems ps ++ [.close]) .finished := by
  cases ps with
  | nil => exact leads_emptyList.append leads_end
  | cons p ps =>
    have hitems : Leads (.document hs [.indentlessSequence, .blockKey])
        (ps.flatMap fun p => [.blockEntry, scalarToken p]) (ps.map scalarItem)
        (.document hs [.indentlessSequence, .blockKey]) :=
      leads_items ps String.toList fun p => styleOf p.toList = .plain
    have hfirst : Leads (.document hs [.blockKey])
        [.key, .scalar Field.excludedPrefixes.name.toList true, .value, .blockEntry, scalarToken p]
        [.scalar none Field.excludedPrefixes.name.toList true, .sequence none, scalarItem p]
        (.document hs [.indentlessSequence, .blockKey]) := leads_firstItem
    simpa [prefixTokens, prefixItems] using (hfirst.append hitems).append leads_listEnd

theorem items_content (dir : String) (s : Settings) :
    (Stream.read (content dir s)).items.map Item.kind =
      [.mapping none] ++ memberItems .outputDir dir ++ memberItems .moduleKey s.moduleKey ++
        memberItems .cacheMode s.cacheMode.name ++ (prefixItems s.excludedPrefixes ++ [.close]) ∧
    (Stream.read (content dir s)).defect? = none := by
  have hks := kinds_content dir s
  rw [List.append_assoc _ (prefixTokens _)] at hks
  refine Stream.read_of_leads hks ?_ (by simp)
  exact (((leads_mapping.append (leads_member _ _ _)).append (leads_member _ _ _)).append
    (leads_member _ _ _)).append (leads_prefixes _ _)

/-! ## What the items say -/

variable {st : Stream} {file : Place} {g : Given} {items rest : List Item} {i : Item}
  {is : List ItemKind}

theorem resolve_of_kind {kind : ItemKind} (st : Stream) (rest : List Item) (h : i.kind = kind)
    (hkind : ∀ n, kind ≠ .alias n) :
    resolve st (i :: rest) = i :: rest := by
  obtain ⟨_, m⟩ := i
  subst h
  unfold resolve
  split
  · next heq =>
    cases heq
    exact (hkind _ rfl).elim
  · rfl

theorem text_of_scalarItem (h : i.kind = scalarItem value) (expected : Expected) (label : String) :
    text st expected label (i :: rest) = .ok value := by
  have hresolve := resolve_of_kind st rest h (by simp [scalarItem])
  simp [text, hresolve, h, scalarItem]

theorem mode_of_scalarItem {m : CacheMode} (h : i.kind = scalarItem m.name) (label : String) :
    mode st label file (i :: rest) = .ok m := by
  have hresolve := resolve_of_kind st rest h (by simp [scalarItem])
  have hname : CacheMode.ofName? m.name = some m := by cases m <;> decide
  simp [mode, hresolve, h, scalarItem, localName?, modeNamed, hname]

/-- The value of a member is taken from the items behind the key. -/
theorem members_key (h : i.kind = .scalar none field.name.toList true) :
    members st file g (i :: rest) =
      g.read st file field field.name rest >>= fun g =>
        members st file g (Stream.afterNode 0 rest) := by
  have hname : Field.ofName? field.name = some field := by cases field <;> decide
  have hresolve := resolve_of_kind st [] h (by simp)
  have hkey : memberKey st i = .ok (field.name, field.name) := by
    simp [memberKey, text, hresolve, h, bind, Except.bind, pure, Except.pure]
  rw [members, if_neg (by simp [h]), hkey]
  simp [hname, bind, Except.bind]

/-- A member whose value is a scalar. -/
theorem members_member (h : items.map Item.kind = memberItems field value ++ is) :
    ∃ v rest, v.kind = scalarItem value ∧ rest.map Item.kind = is ∧
      members st file g items =
        g.read st file field field.name (v :: rest) >>= fun g => members st file g rest := by
  obtain ⟨k, items, rfl, hk, h⟩ := List.map_eq_cons_iff.mp h
  obtain ⟨v, rest, rfl, hv, hrest⟩ := List.map_eq_cons_iff.mp h
  have hafter : Stream.afterNode 0 (v :: rest) = rest := by simp [Stream.afterNode, hv, scalarItem]
  exact ⟨v, rest, hv, hrest, by rw [members_key hk, hafter]⟩

/-! ### The list -/

theorem texts_of_scalarItems {close : Item} (hclose : close.kind = .close)
    (h : items.map Item.kind = ps.map scalarItem) (label : String) (acc : List String) :
    texts st label acc (items ++ close :: rest) = .ok (acc.reverse ++ ps) := by
  induction ps generalizing items acc with
  | nil =>
    obtain rfl := List.map_eq_nil_iff.mp h
    simp [texts, hclose]
  | cons p ps ih =>
    obtain ⟨i, items, rfl, hi, h⟩ := List.map_eq_cons_iff.mp h
    rw [List.cons_append, texts, if_neg (by simp [hi, scalarItem]), text_of_scalarItem hi]
    simpa using ih h (p :: acc)

theorem afterNode_scalarItems {close : Item} (hclose : close.kind = .close)
    (h : items.map Item.kind = ps.map scalarItem) :
    Stream.afterNode 1 (items ++ close :: rest) = rest := by
  induction ps generalizing items with
  | nil =>
    obtain rfl := List.map_eq_nil_iff.mp h
    simp [Stream.afterNode, hclose]
  | cons p ps ih =>
    obtain ⟨i, items, rfl, hi, h⟩ := List.map_eq_cons_iff.mp h
    simp [Stream.afterNode, hi, scalarItem, ih h]

/-- The list of excluded prefixes, behind which the mapping ends. -/
theorem members_prefixes (h : items.map Item.kind = prefixItems ps ++ [.close])
    (hg : g.excludedPrefixes? = none) :
    members st file g items = .ok { g with excludedPrefixes? := some ps } := by
  simp only [prefixItems, List.append_assoc, List.cons_append, List.nil_append] at h
  obtain ⟨k, items, rfl, hk, h⟩ := List.map_eq_cons_iff.mp h
  obtain ⟨l, items, rfl, hl, h⟩ := List.map_eq_cons_iff.mp h
  obtain ⟨vs, items, rfl, hvs, h⟩ := List.map_eq_append_iff.mp h
  obtain ⟨c, items, rfl, hc, h⟩ := List.map_eq_cons_iff.mp h
  obtain ⟨c', items, rfl, hc', -⟩ := List.map_eq_cons_iff.mp h
  have hafter : Stream.afterNode 0 (l :: (vs ++ c :: c' :: items)) = c' :: items := by
    simp [Stream.afterNode, hl, afterNode_scalarItems hc hvs]
  have hlist (label : String) : list st label (l :: (vs ++ c :: c' :: items)) = .ok ps := by
    simp [list, resolve_of_kind st _ hl, hl, texts_of_scalarItems hc hvs]
  rw [members_key hk, hafter]
  simp [Given.read, Given.has, hg, hlist, members, hc', bind, Except.bind, pure, Except.pure]

/-! ## The settings -/

theorem read_outputDir (hg : g.outputDir? = none) (hi : i.kind = scalarItem value)
    (label : String) :
    g.read st file .outputDir label (i :: rest) =
      .ok { g with outputDir? := some (.ofString value) } := by
  simp [Given.read, Given.has, hg, text_of_scalarItem hi, bind, Except.bind, pure, Except.pure]

theorem read_moduleKey (hg : g.moduleKey? = none) (hi : i.kind = scalarItem value)
    (label : String) :
    g.read st file .moduleKey label (i :: rest) = .ok { g with moduleKey? := some value } := by
  simp [Given.read, Given.has, hg, text_of_scalarItem hi, bind, Except.bind, pure, Except.pure]

theorem read_cacheMode {m : CacheMode} (hg : g.cacheMode? = none) (hi : i.kind = scalarItem m.name)
    (label : String) :
    g.read st file .cacheMode label (i :: rest) = .ok { g with cacheMode? := some m } := by
  simp [Given.read, Given.has, hg, mode_of_scalarItem hi, bind, Except.bind, pure, Except.pure]

theorem ofStream_of_items {dir : String} {s : Settings}
    (h : st.items.map Item.kind = [.mapping none] ++ memberItems .outputDir dir ++
      memberItems .moduleKey s.moduleKey ++ memberItems .cacheMode s.cacheMode.name ++
        (prefixItems s.excludedPrefixes ++ [.close]))
    (hdefect : st.defect? = none) :
    ofStream st = .ok { s with outputDir := .ofString dir } := by
  simp only [List.append_assoc, List.singleton_append] at h
  obtain ⟨root, items, hitems, hroot, h⟩ := List.map_eq_cons_iff.mp h
  have hmembers : members st ⟨"", root.mark⟩ .empty items =
      .ok ⟨some (.ofString dir), some s.moduleKey, some s.cacheMode, some s.excludedPrefixes⟩ := by
    obtain ⟨v₁, rest₁, hv₁, h₁, hdir⟩ := members_member h
    rw [hdir, read_outputDir rfl hv₁]
    obtain ⟨v₂, rest₂, hv₂, h₂, hkey⟩ := members_member h₁
    refine hkey.trans ?_
    rw [read_moduleKey rfl hv₂]
    obtain ⟨v₃, rest₃, hv₃, h₃, hmode⟩ := members_member h₂
    refine hmode.trans ?_
    rw [read_cacheMode rfl hv₃]
    exact members_prefixes h₃ rfl
  simp [ofStream, hitems, hroot, hmembers, hdefect, Given.complete, bind, Except.bind, pure,
    Except.pure]

theorem write_eq_ok_iff {s : Settings} {t : String} :
    s.write = .ok t ↔ ∃ dir, s.outputDir = .ofString dir ∧ t = String.ofList (content dir s) := by
  simp only [← Document.path_of_text?, write]
  cases s.outputDir.text? with
  | none => simp
  | some dir => simp [content, eq_comm]

theorem read_of_write {s : Settings} {t : String} (h : s.write = .ok t) : read t = .ok s := by
  obtain ⟨dir, hdir, rfl⟩ := write_eq_ok_iff.mp h
  obtain ⟨hitems, hdefect⟩ := items_content dir s
  rw [read, String.toList_ofList, ofStream_of_items hitems hdefect, ← hdir]
  rfl

variable {d d' : Disk} {p : Path} {s : Settings}

theorem perform_save_eq_ok_iff : d.perform (save p s) = (.ok (), d') ↔
    ∃ t, s.write = .ok t ∧ d.setContent p (bytesOf t) = .ok d' := by
  rw [save, Disk.perform_bind_eq_ok_iff]
  constructor
  · rintro ⟨t, d₁, hwrite, h⟩
    obtain ⟨ht, rfl⟩ := Prod.mk.inj ((Disk.perform_liftExcept d s.write).symm.trans hwrite)
    exact ⟨t, ht, Disk.perform_change_eq_ok_iff.mp h⟩
  · rintro ⟨t, ht, h⟩
    exact ⟨t, d, by rw [Disk.perform_liftExcept, ht], Disk.perform_change_eq_ok_iff.mpr h⟩

theorem perform_load_of_write {t : String} (hwrite : s.write = .ok t)
    (h : d.contentAt p = .ok (bytesOf t)) : d.perform (load p) = (.ok s, d) := by
  rw [load, Disk.perform_bind_eq_ok_iff]
  exact ⟨t, d, Disk.perform_readText_eq_ok_iff.mpr ⟨⟨_, h, stringOf?_bytesOf t⟩, rfl⟩,
    by rw [Disk.perform_liftExcept, read_of_write hwrite]⟩

/-- Settings have a text exactly if the output directory is text, whatever the other strings are,
and that text reads as the same settings. So where they have been saved, the same settings are
loaded, with the same store and the same filter. -/
theorem load_of_save (s : Settings) :
    ((∃ t, s.write = .ok t) ↔ ∃ dir, s.outputDir = .ofString dir) ∧
    (∀ t, s.write = .ok t → read t = .ok s) ∧
    ∀ (d d' : Disk) (p : Path), d.perform (save p s) = (.ok (), d') →
      ∃ loaded, d'.perform (load p) = (.ok loaded, d') ∧ loaded = s ∧
        loaded.store = s.store ∧ loaded.filter = s.filter := by
  refine ⟨?_, fun t => read_of_write, fun d d' p h => ?_⟩
  · simp only [write_eq_ok_iff]
    exact ⟨fun ⟨_, dir, hdir, _⟩ => ⟨dir, hdir⟩, fun ⟨dir, hdir⟩ => ⟨_, dir, hdir, rfl⟩⟩
  · obtain ⟨t, hwrite, hset⟩ := perform_save_eq_ok_iff.mp h
    exact ⟨s, perform_load_of_write hwrite (Disk.contentAt_of_setContent hset), rfl, rfl, rfl⟩

/-- Strings of all kinds that a plain scalar would not give back. -/
def sampleSettings : Settings where
  outputDir := .ofString " - \"out\"\n# it\x27s\n\n"
  moduleKey := "null"
  cacheMode := .contentHash
  excludedPrefixes := ["", " padded ", "java.\n  javax.\n", "0x1F", "true", "a: [b]", "\x00\t\\",
    String.ofList [lineSeparator, 'a', paragraphSeparator], "---", "~"]

theorem load_of_save_sample : ∃ d',
    (Disk.empty []).perform (save (.ofString fileName) sampleSettings) = (.ok (), d') ∧
    d'.perform (load (.ofString fileName)) = (.ok sampleSettings, d') := by
  obtain ⟨hwrite, -, hload⟩ := load_of_save sampleSettings
  obtain ⟨t, ht⟩ := hwrite.mpr ⟨_, rfl⟩
  have hcreate : (Disk.empty []).create (.ofString fileName) =
      .ok ([bytesOf fileName], (Disk.empty []).put [bytesOf fileName] (.file [])) := by
    decide +kernel
  have hsave := perform_save_eq_ok_iff.mpr ⟨t, ht, Disk.setContent_of_create hcreate (bytesOf t)⟩
  obtain ⟨loaded, hloaded, rfl, -⟩ := hload _ _ _ hsave
  exact ⟨_, hsave, hloaded⟩

end TypeDeps.Settings
