import TypeDeps.CommandLine.Run
import TypeDeps.Proofs.Graph.Files

/-!
# Checking graph files

A check reads a file as a text before it looks for a graph in it. All other commands read the
bytes, and these need not be UTF-8 in a string that is passed over. So a file that is no text may
be fit for all commands but this one.
-/
namespace TypeDeps.CommandLine

open Disk

variable {d : Disk} {p : Path} {g : Graph} {t : String} {colour : Bool}

/-- What is said about a file of this text that holds this graph. -/
def checked (colour : Bool) (p : Path) (g : Graph) (t : String) : Progress :=
  ⟨Notice.ofGraph g, .ok (checkText colour p g (g.write.toOption = some t))⟩

/-- The file holds this text and loads as this graph. -/
def Holds (d : Disk) (p : Path) (g : Graph) (t : String) : Prop :=
  d.contentAt p = .ok (bytesOf t) ∧ d.perform (Graph.load p) = (.ok g, d)

theorem holds_iff : Holds d p g t ↔ d.contentAt p = .ok (bytesOf t) ∧ Graph.read t = .ok g := by
  unfold Holds
  rw [Graph.perform_load_eq_ok_iff, Graph.read_eq_ok_iff]
  constructor
  · rintro ⟨ht, ⟨c, hc, hg⟩, -⟩
    exact ⟨ht, Except.ok.inj (hc.symm.trans ht) ▸ hg⟩
  · rintro ⟨ht, hg⟩
    exact ⟨ht, ⟨_, ht, hg⟩, rfl⟩

/-- The answer to a text. -/
def verdict (colour : Bool) (p : Path) (t : String) : Progress :=
  match Graph.read t with
  | .error e => .failed [] e
  | .ok g => checked colour p g t

theorem run_runCheck (colour : Bool) (d : Disk) (p : Path) :
    (runCheck colour p : StateM Disk Progress).run d =
      (match (d.perform (Storage.readText p)).1 with
        | .error e => .failed [] e
        | .ok t => verdict colour p t, d) := by
  have hrun : StateT.run (Storage.readText p : Task (StateM Disk) String) d =
      ((d.perform (Storage.readText p)).1, d) := Prod.ext rfl (perform_readText d p)
  rw [runCheck, StateT.run_bind, hrun]
  cases (d.perform (Storage.readText p)).1 with
  | error e => rfl
  | ok t =>
    change (match Graph.read t with
      | .error e => pure (Progress.failed [] e)
      | .ok g => pure (checked colour p g t) : StateM Disk Progress).run d = (verdict colour p t, d)
    unfold verdict
    cases Graph.read t <;> rfl

theorem runCheck_of_holds (colour : Bool) (h : Holds d p g t) :
    (runCheck colour p : StateM Disk Progress).run d = (checked colour p g t, d) := by
  obtain ⟨hc, hg⟩ := holds_iff.mp h
  have htext : d.perform (Storage.readText p) = (.ok t, d) :=
    perform_readText_eq_ok_iff.mpr ⟨⟨_, hc, stringOf?_bytesOf t⟩, rfl⟩
  rw [run_runCheck, htext]
  simp only [verdict, hg]

theorem holds_of_runCheck {answer : String}
    (h : ((runCheck colour p : StateM Disk Progress).run d).1.result = .ok answer) :
    ∃ g t, Holds d p g t := by
  rw [run_runCheck] at h
  split at h
  · cases h
  · next t ht =>
    unfold verdict at h
    split at h
    · cases h
    · next g hg =>
      obtain ⟨d', htext⟩ := exists_snd ht
      obtain ⟨⟨c, hc, hct⟩, -⟩ := perform_readText_eq_ok_iff.mp htext
      exact ⟨g, t, holds_iff.mpr ⟨stringOf?_eq_some_iff.mp hct ▸ hc, hg⟩⟩

/-- A check answers exactly if the file is text and loads as the other commands load it. Then it is
about the graph that they get. -/
theorem check_agrees_with_load (colour : Bool) (settings : Settings) (graph? : Option Path)
    (d : Disk) :
    ((∃ answer, ((runCommand colour settings (.check graph?) :
        StateM Disk Progress).run d).1.result = .ok answer) ↔
      ∃ g t, Holds d (graphPath settings graph?) g t) ∧
    ∀ g t, Holds d (graphPath settings graph?) g t →
      (runCommand colour settings (.check graph?) : StateM Disk Progress).run d =
        (checked colour (graphPath settings graph?) g t, d) := by
  refine ⟨⟨fun ⟨_, h⟩ => holds_of_runCheck h, fun ⟨g, t, h⟩ => ?_⟩, fun g t h => ?_⟩
  · rw [runCommand, runCheck_of_holds colour h]
    exact ⟨_, rfl⟩
  · exact runCheck_of_holds colour h

/-- One file. It has no entries, and a string in it is passed over. -/
def diskWith (passed : List UInt8) : Disk :=
  (Disk.empty []).put [bytesOf "g"]
    (.file (bytesOf "\x7b\"files\": [], \"note\": \"" ++ passed ++ bytesOf "\"\x7d"))

def noted : String := "\x7b\"files\": [], \"note\": \"é\"\x7d"

theorem check_agrees_with_load_beyond_ascii :
    Holds (diskWith (bytesOf "é")) (.ofString "g") ⟨[]⟩ noted ∧
      (runCommand false .standard (.check (some (.ofString "g"))) : StateM Disk Progress).run
          (diskWith (bytesOf "é")) =
        (checked false (.ofString "g") ⟨[]⟩ noted, diskWith (bytesOf "é")) := by
  have hholds : Holds (diskWith (bytesOf "é")) (.ofString "g") ⟨[]⟩ noted :=
    ⟨by decide +kernel, by decide +kernel⟩
  exact ⟨hholds, (check_agrees_with_load false .standard (some (.ofString "g")) _).2 _ _ hholds⟩

/-- A file can be no text and still hold a graph for all commands but the check. -/
theorem check_refuses_what_others_load :
    ¬∀ (colour : Bool) (settings : Settings) (graph? : Option Path) (d : Disk),
      (∃ answer, ((runCommand colour settings (.check graph?) :
        StateM Disk Progress).run d).1.result = .ok answer) ↔
      ∃ g, (d.perform (Graph.load (graphPath settings graph?))).1 = .ok g := by
  intro h
  have hload : ((diskWith [0xFF]).perform (Graph.load (.ofString "g"))).1 = .ok ⟨[]⟩ := by
    decide +kernel
  have hrefused : ((runCommand false .standard (.check (some (.ofString "g"))) :
      StateM Disk Progress).run (diskWith [0xFF])).1.result = .error (.storage .notText) := by
    decide +kernel
  obtain ⟨answer, hanswer⟩ := (h false .standard (some (.ofString "g")) _).mpr ⟨_, hload⟩
  rw [hrefused] at hanswer
  cases hanswer

end TypeDeps.CommandLine
