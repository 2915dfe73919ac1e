import Mathlib.Data.Set.Function
import ScriptTrace.Coverage.Artifact
import ScriptTrace.Proofs.Coverage.Line
import ScriptTrace.Proofs.Hash
import ScriptTrace.Proofs.Storage.Lawful

/-!
The names of the files of a coverage session. That of a script is made from its hash and from how it
is kept, so scripts of one name have one hash, and none has the name of a log. In memory different
names lead to different places in every directory (`MemoryStore.injOn_fileNames`).
-/

set_option autoImplicit false
set_option relaxedAutoImplicit false

namespace ScriptTrace

namespace ExecutedScript

theorem toList_fileName (s : ExecutedScript) :
    s.fileName.toList = s.hash.chars ++ '.' :: s.fileExtension.toList := by
  rw [fileName, Hash.display_eq, String.toList_append, String.toList_append, String.toList_ofList,
    List.append_assoc]
  rfl

/-- The name of the file that a contract is kept in. -/
def packageName (hash : Hash) : String := hash.display ++ ".nef"

/-- The name of the file that bare code is kept in. -/
def codeName (hash : Hash) : String := hash.display ++ ".neo-script"

theorem fileName_contract (contract : Contract) :
    (ExecutedScript.contract contract).fileName = packageName contract.hash :=
  String.append_assoc

theorem fileName_script (hash : Hash) (code : Bytes) :
    (script hash code).fileName = codeName hash :=
  String.append_assoc

theorem packageName_ne_codeName (hash hash' : Hash) : packageName hash ≠ codeName hash' := by
  intro h
  have hlast := congrArg (fun name ↦ name.toList.getLast?) h
  simp [packageName, codeName, String.toList_append, List.getLast?_append] at hlast

/-- Files of one name are of one hash. -/
theorem hash_eq_of_fileName_eq {s s' : ExecutedScript} (h : s.fileName = s'.fileName) :
    s.hash = s'.hash := by
  have hchars := congrArg String.toList h
  rw [toList_fileName, toList_fileName] at hchars
  have hpoint := fun s : ExecutedScript ↦ s.hash.notMem_chars (c := '.') (by decide)
  exact Hash.chars_injective (CoverageLine.append_cons_inj (hpoint s) (hpoint s') hchars).1

/-- A path ends like the name of its file. -/
theorem fileName_eq_of_append_eq {front front' : String} {s s' : ExecutedScript}
    (h : front ++ s.fileName = front' ++ s'.fileName) : s.fileName = s'.fileName := by
  have hlist := congrArg String.toList h
  rw [String.toList_append, String.toList_append] at hlist
  have hlast := congrArg List.getLast? hlist
  have hlength : s.fileName.toList.length = s'.fileName.toList.length := by
    simp only [toList_fileName, List.getLast?_append] at hlast
    simp only [toList_fileName, List.length_append, Hash.length_chars]
    cases s <;> cases s' <;> simp [fileExtension] at hlast ⊢
  exact String.toList_inj.mp (List.append_inj_right' hlist hlength)

/-- A path of a script does not end like that of a log. -/
theorem append_fileName_ne (front front' sessionName : String) (s : ExecutedScript) :
    front ++ s.fileName ≠ front' ++ (sessionName ++ ".neo-coverage") := by
  intro h
  have hlast := congrArg (fun path ↦ path.toList.getLast?) h
  simp only [String.toList_append, toList_fileName, List.getLast?_append] at hlast
  cases s <;> simp [fileExtension] at hlast

end ExecutedScript
namespace CoverageWriter

/-- The names of the files of a session. -/
def fileNames (sessionName : String) : Set String :=
  insert (sessionName ++ ".neo-coverage") (Set.range ExecutedScript.fileName)

end CoverageWriter

namespace MemoryStore

open CoverageWriter

/-- A path ends in the name of its file. -/
theorem exists_joinPath_eq (directory name : String) :
    ∃ front, joinPath directory name = front ++ name := by
  unfold joinPath
  split
  · exact ⟨"", String.empty_append.symm⟩
  · split
    · exact ⟨directory, rfl⟩
    · exact ⟨directory ++ "/", rfl⟩

/-- In memory different names lead to different places. -/
theorem injOn_fileNames (directory sessionName : String) :
    Set.InjOn (fun name ↦ view.place (joinPath directory name)) (fileNames sessionName) := by
  obtain ⟨front, hfront⟩ := exists_joinPath_eq directory (sessionName ++ ".neo-coverage")
  have hother (s : ExecutedScript) :
      joinPath directory s.fileName ≠ joinPath directory (sessionName ++ ".neo-coverage") := by
    obtain ⟨front', hfront'⟩ := exists_joinPath_eq directory s.fileName
    rw [hfront, hfront']
    exact s.append_fileName_ne front' front sessionName
  rintro name (rfl | ⟨s, rfl⟩) name' (rfl | ⟨s', rfl⟩) hsame
  · rfl
  · exact absurd hsame.symm (hother s')
  · exact absurd hsame (hother s)
  · obtain ⟨front, hfront⟩ := exists_joinPath_eq directory s.fileName
    obtain ⟨front', hfront'⟩ := exists_joinPath_eq directory s'.fileName
    have hpaths : joinPath directory s.fileName = joinPath directory s'.fileName := hsame
    rw [hfront, hfront'] at hpaths
    exact ExecutedScript.fileName_eq_of_append_eq hpaths

end MemoryStore

end ScriptTrace
