import TypeDeps.Proofs.Disk.Work

/-!
# Several writers of one file

Writing a file is four kinds of steps: the directories above it are made, the temporary file is
opened, bytes are written to it and it takes the place of the file. Several writers take their
steps in any order, and all of them use the same temporary file. One that nobody interrupts
writes the file all at once.
-/
namespace TypeDeps.Disk

/-! ## Open files -/

/-- An open file is followed when it is moved. Once another file has taken its place it has
none. -/
structure OpenFile where
  place? : Option Place
  offset : Nat
  deriving DecidableEq, Repr

/-- The content once a piece has been written at an offset. Zeros fill what lies between the end
and the offset. -/
def overwrite (content : List UInt8) (offset : Nat) (piece : List UInt8) : List UInt8 :=
  content.take offset ++ List.replicate (offset - content.length) 0 ++ piece ++
    content.drop (offset + piece.length)

theorem overwrite_end (content piece : List UInt8) :
    overwrite content content.length piece = content ++ piece := by
  simp [overwrite]

namespace OpenFile

/-- The disk once a piece has been written. -/
def write (file : OpenFile) (d : Disk) (piece : List UInt8) : Disk :=
  match file.place? with
  | none => d
  | some place =>
    match d.at? place with
    | some (.file content) => d.put place (.file (overwrite content file.offset piece))
    | _ => d

def advance (file : OpenFile) (count : Nat) : OpenFile :=
  { file with offset := file.offset + count }

/-- The open file once the file at one place has been moved to another one. -/
def moved (source target : Place) (file : OpenFile) : OpenFile :=
  if file.place? = some source then { file with place? := some target }
  else if file.place? = some target then { file with place? := none }
  else file

end OpenFile

theorem perform_putFile (d : Disk) (p : Path) (bytes : List UInt8) :
    d.perform (putFile p bytes) =
      match d.setContent (Storage.temporary p) bytes with
      | .ok d => d.perform (Storage.task (Storage.replace (Storage.temporary p) p))
      | .error e => (.error (.storage e), d) := by
  have hwrite : d.perform (Storage.write (Storage.temporary p) bytes) = _ :=
    perform_change d fun d => d.setContent (Storage.temporary p) bytes
  rw [putFile, perform_bind, hwrite]
  cases d.setContent (Storage.temporary p) bytes <;> rfl

/-! ## Writers and their turns -/

inductive Phase where
  | begun
  /-- The directories are there. -/
  | prepared
  /-- The temporary file is open and the rest has to be written. -/
  | writing (file : OpenFile) (rest : List UInt8)
  | ended (answer : Except Error Unit)
  deriving DecidableEq

def Phase.moved (source target : Place) : Phase → Phase
  | .writing file rest => .writing (file.moved source target) rest
  | phase => phase

def Phase.isWriting : Phase → Bool
  | .writing _ _ => true
  | _ => false

structure Writers (ι : Type) where
  disk : Disk
  phase : ι → Phase

namespace Writers

variable {ι : Type} [DecidableEq ι]

def start (d : Disk) : Writers ι := ⟨d, fun _ => .begun⟩

/-- One writer enters a phase, with a new disk. -/
def set (s : Writers ι) (i : ι) (d : Disk) (phase : Phase) : Writers ι :=
  ⟨d, Function.update s.phase i phase⟩

def prepare (s : Writers ι) (p : Path) (i : ι) : Writers ι :=
  match s.disk.perform (makeDirectory p) with
  | (.ok _, d) => s.set i d .prepared
  | (.error e, d) => s.set i d (.ended (.error e))

def openTemporary (s : Writers ι) (p : Path) (i : ι) (content : List UInt8) : Writers ι :=
  match s.disk.create (Storage.temporary p) with
  | .ok (place, d) => s.set i d (.writing ⟨some place, 0⟩ content)
  | .error e => s.set i s.disk (.ended (.error (.storage e)))

def writePiece (s : Writers ι) (i : ι) (file : OpenFile) (piece rest : List UInt8) : Writers ι :=
  s.set i (file.write s.disk piece) (.writing (file.advance piece.length) rest)

/-- The temporary file takes its place, for everyone who has it open. -/
def rename (s : Writers ι) (p : Path) (i : ι) : Writers ι :=
  match s.disk.replace (Storage.temporary p) p with
  | .ok d =>
    let moved := fun j =>
      (s.phase j).moved (s.disk.placeOf (Storage.temporary p)) (s.disk.placeOf p)
    (⟨d, moved⟩ : Writers ι).set i d (.ended (.ok ()))
  | .error e => s.set i s.disk (.ended (.error (.storage e)))

/-- The next step of one writer. The amount is how many bytes it writes, if it comes to that, in
addition to the first one. -/
def turn (p : Path) (contents : ι → List UInt8) (s : Writers ι) (i : ι) (amount : Nat) :
    Writers ι :=
  match s.phase i with
  | .begun => s.prepare p i
  | .prepared => s.openTemporary p i (contents i)
  | .writing _ [] => s.rename p i
  | .writing file (b :: rest) =>
    s.writePiece i file (b :: rest.take amount) (rest.drop amount)
  | .ended _ => s

/-- The writers after these turns. -/
def run (p : Path) (contents : ι → List UInt8) (d : Disk) (turns : List (ι × Nat)) : Writers ι :=
  turns.foldl (fun s t => s.turn p contents t.1 t.2) (start d)

theorem run_snoc (p : Path) (contents : ι → List UInt8) (d : Disk) (turns : List (ι × Nat))
    (t : ι × Nat) :
    run p contents d (turns ++ [t]) = (run p contents d turns).turn p contents t.1 t.2 := by
  simp [run]

theorem phase_set (s : Writers ι) (i j : ι) (d : Disk) (phase : Phase) :
    (s.set i d phase).phase j = if j = i then phase else s.phase j := by
  simp [set, Function.update_apply]

/-! ## A writer alone -/

variable {p : Path} {contents : ι → List UInt8} {d : Disk} {i : ι} {s : Writers ι}

/-- The writer has ended with this answer and this disk. -/
structure EndedWith (s : Writers ι) (i : ι) (result : Except Error Unit × Disk) : Prop where
  phase : s.phase i = .ended result.1
  disk : s.disk = result.2

theorem EndedWith.later {result : Except Error Unit × Disk} (h : s.EndedWith i result)
    (amounts : List Nat) :
    (amounts.foldl (fun s n => s.turn p contents i n) s).EndedWith i result := by
  have hturn : ∀ n, s.turn p contents i n = s := fun n => by simp [turn, h.phase]
  induction amounts with
  | nil => exact h
  | cons n amounts ih => simpa [hturn] using ih

theorem rename_endedWith (s : Writers ι) (p : Path) (i : ι) : (s.rename p i).EndedWith i
    (s.disk.perform (Storage.task (Storage.replace (Storage.temporary p) p))) := by
  have hperform := perform_change s.disk fun d => d.replace (Storage.temporary p) p
  have hchange : (Storage.replace (Storage.temporary p) p : StateM Disk _) =
      change fun d => d.replace (Storage.temporary p) p := rfl
  rw [hchange, hperform]
  unfold rename
  cases s.disk.replace (Storage.temporary p) p with
  | ok d => exact ⟨by simp [set], rfl⟩
  | error e => exact ⟨by simp [set], rfl⟩

/-- What is left to write comes to the end of the file, in as many pieces as it takes. -/
theorem finish_writing {place : Place} (hne : place ≠ []) (rest : List UInt8) :
    ∀ (amounts : List Nat) (s : Writers ι) (written : List UInt8),
      s.phase i = .writing ⟨some place, written.length⟩ rest →
      s.disk = d.put place (.file written) → rest.length + 1 ≤ amounts.length →
      (amounts.foldl (fun s n => s.turn p contents i n) s).EndedWith i
        ((d.put place (.file (written ++ rest))).perform
          (Storage.task (Storage.replace (Storage.temporary p) p))) := by
  induction hlength : rest.length using Nat.strong_induction_on generalizing rest with
  | _ length ih =>
    subst hlength
    intro amounts s written hphase hdisk hamounts
    obtain ⟨n, amounts, rfl⟩ : ∃ n later, amounts = n :: later :=
      List.exists_cons_of_length_pos (by omega)
    rw [List.foldl_cons]
    cases rest with
    | nil =>
      have hturn : s.turn p contents i n = s.rename p i := by simp [turn, hphase]
      have hended := s.rename_endedWith p i
      rw [hdisk] at hended
      rw [hturn, List.append_nil]
      exact hended.later amounts
    | cons b rest =>
      set piece := b :: rest.take n with hpiece
      have hturn : s.turn p contents i n =
          s.writePiece i ⟨some place, written.length⟩ piece (rest.drop n) := by
        simp [turn, hphase, hpiece]
      have hat : s.disk.at? place = some (.file written) := by
        rw [hdisk, at?_put d hne, if_pos rfl]
      have hwritten : OpenFile.write ⟨some place, written.length⟩ s.disk piece =
          d.put place (.file (written ++ piece)) := by
        simp only [OpenFile.write, hat, overwrite_end]
        rw [hdisk, put_put]
      have hsplit : written ++ b :: rest = written ++ piece ++ rest.drop n := by
        simp [hpiece]
      rw [hturn, hsplit]
      simp only [List.length_cons] at hamounts
      refine ih _ ?_ (rest.drop n) rfl amounts _ _ ?_ ?_ ?_
      · simp only [List.length_drop, List.length_cons]
        omega
      · simp [writePiece, set, OpenFile.advance]
      · simpa [writePiece, set] using hwritten
      · simp only [List.length_drop]
        omega

theorem open_and_finish (amounts : List Nat) (hphase : s.phase i = .prepared)
    (h : (contents i).length + 2 ≤ amounts.length) :
    (amounts.foldl (fun s n => s.turn p contents i n) s).EndedWith i
      (s.disk.perform (putFile p (contents i))) := by
  obtain ⟨n, amounts, rfl⟩ : ∃ n later, amounts = n :: later :=
    List.exists_cons_of_length_pos (by omega)
  have hturn : s.turn p contents i n = s.openTemporary p i (contents i) := by
    simp [turn, hphase]
  rw [List.foldl_cons, hturn, perform_putFile]
  unfold openTemporary
  cases hcreate : s.disk.create (Storage.temporary p) with
  | error e =>
    have hset : s.disk.setContent (Storage.temporary p) (contents i) = .error e := by
      rw [setContent, hcreate]
      rfl
    rw [hset]
    exact EndedWith.later ⟨by simp [set], rfl⟩ amounts
  | ok opened =>
    obtain ⟨place, d₁⟩ := opened
    rw [setContent_of_create hcreate]
    obtain ⟨-, hne, rfl, -⟩ := create_frame hcreate
    simp only [List.length_cons] at h
    exact finish_writing hne (contents i) amounts _ [] (by simp [set]) rfl (by omega)

/-- The steps of one writer that nobody interrupts are the write of the file all at once, whatever
the pieces. -/
theorem run_alone (p : Path) (contents : ι → List UInt8) (d : Disk) (i : ι) (amounts : List Nat)
    (h : (contents i).length + 3 ≤ amounts.length) :
    (run p contents d (amounts.map fun n => (i, n))).EndedWith i
      (d.perform (Storage.writeAtomic p (contents i))) := by
  obtain ⟨n, amounts, rfl⟩ : ∃ n later, amounts = n :: later :=
    List.exists_cons_of_length_pos (by omega)
  have hturn : (start d).turn p contents i n = (start d).prepare p i := rfl
  rw [run, List.foldl_map, List.foldl_cons, hturn, writeAtomic_eq, perform_bind]
  unfold prepare
  rw [show (start d : Writers ι).disk = d from rfl]
  rcases d.perform (makeDirectory p) with ⟨e | u, d₁⟩
  · exact EndedWith.later ⟨by simp [set], rfl⟩ amounts
  · simp only [List.length_cons] at h
    exact open_and_finish amounts (by simp [set]) (by omega)

end Writers

end TypeDeps.Disk
