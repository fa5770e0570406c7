import IconCompiler.CommandLine.Run
import IconCompiler.Proofs.CommandLine.Options
import IconCompiler.Proofs.Configuration.Loading
import IconCompiler.Proofs.Configuration.Naming
import IconCompiler.Proofs.Configuration.Starter

/-!
Making a configuration file to start from. The command writes that file and nothing else, or it
fails and writes nothing; and the file that it writes can be loaded at once.
-/

namespace IconCompiler

namespace Config

/-- The names of the known frameworks need no escapes. -/
theorem isPlain_of_has {framework : String} (h : Registry.builtin.has framework = true) :
    ∀ c ∈ framework.toList, Toml.IsPlain c := by
  have hall : Registry.builtin.keys.all fun key => key.toList.all fun c => Toml.IsPlain c := by
    decide +kernel
  have hkey := List.all_eq_true.mp hall framework ((Table.has_iff _ _).mp h)
  exact fun c hc => of_decide_eq_true (List.all_eq_true.mp hkey c hc)

/-- A file to start from loads to the standard configuration with its framework, the directories
being seen from where the file is. -/
theorem load_starter {t : FileTree} {file framework : String}
    (h : Registry.builtin.has framework = true)
    (hread : t.readText file = .ok (starter framework)) :
    load t (some file) =
      .ok (({ standard with framework } : Config).seenFrom (Path.directory file)) :=
  load_eq_ok_iff.mpr (Or.inr (ofFile_eq_ok_iff.mpr
    ⟨_, _, hread, ofToml_starter (isPlain_of_has h), rfl⟩))

end Config

namespace Command

variable {t : FileTree} {framework output : String} {force : Bool}

/-- Why no file is made: the framework is unknown, the file is there and may not be replaced, or
there is no place for it. -/
inductive RefusesInit (t : FileTree) (framework output : String) (force : Bool) : Prop
  | unsupported : Registry.builtin.has framework = false → RefusesInit t framework output force
  | present : t.pathExists output = true → force = false → RefusesInit t framework output force
  | unwritable {e : IoError} : t.placeForFile output = .error e →
      RefusesInit t framework output force

/-- The reply where the file is made: nothing but the file has changed, and it can be loaded to a
configuration that a run can use. -/
structure Initialized (t : FileTree) (framework output : String) (r : Reply) (l : Location) :
    Prop where
  code : r.code = 0
  place : t.placeForFile output = .ok l
  workingDirectory : r.tree.workingDirectory = t.workingDirectory
  written : r.tree.entry? l = some (.file (Config.starter framework).toUTF8)
  unchanged : ∀ x, x ≠ l → r.tree.entry? x = t.entry? x
  loaded : ∃ c, Config.load r.tree (some output) = .ok c ∧ c.validate = .ok () ∧
    c = ({ Config.standard with framework } : Config).seenFrom (Path.directory output)

theorem failed_of_refusesInit (h : RefusesInit t framework output force) :
    (runInit t framework output force).code ≠ 0 ∧
      (runInit t framework output force).tree = t := by
  unfold runInit
  split
  · exact ⟨Nat.succ_ne_zero 1, rfl⟩
  · rename_i hsupported
    split
    · exact ⟨Nat.succ_ne_zero 1, rfl⟩
    · rename_i hpresent
      cases h with
      | unsupported h => simp [h] at hsupported
      | present hexists hforce => simp [hexists, hforce] at hpresent
      | unwritable h =>
        rw [FileTree.writeText, FileTree.writeBytes, h]
        exact ⟨Nat.one_ne_zero, rfl⟩

theorem exists_initialized (h : ¬ RefusesInit t framework output force) :
    ∃ l, Initialized t framework output (runInit t framework output force) l := by
  have hsupported : Registry.builtin.has framework = true := by
    by_contra hn
    exact h (.unsupported (Bool.eq_false_iff.mpr hn))
  have hpresent : (t.pathExists output && !force) = false := by
    by_contra hn
    simp only [Bool.not_eq_false, Bool.and_eq_true, Bool.not_eq_true'] at hn
    exact h (.present hn.1 hn.2)
  cases hplace : t.placeForFile output with
  | error e => exact absurd (.unwritable hplace) h
  | ok l =>
    have hwrite : t.writeText output (Config.starter framework) =
        .ok (t.put l (.file (Config.starter framework).toUTF8)) :=
      (FileTree.writeText_eq_ok_iff _ _ _ _).mpr ⟨l, hplace, rfl⟩
    have hne := FileTree.ne_nil_of_placeForFile hplace
    have hrun : ∃ lines, runInit t framework output force =
        .success (t.put l (.file (Config.starter framework).toUTF8)) lines := by
      simp [runInit, hsupported, hpresent, hwrite]
    obtain ⟨lines, hrun⟩ := hrun
    rw [hrun]
    refine ⟨l, rfl, hplace, rfl, ?_, fun x hx => ?_, _,
      Config.load_starter hsupported (FileTree.readText_of_writeText hwrite), ?_, rfl⟩
    · exact FileTree.entry?_put_self t _ hne
    · exact FileTree.entry?_put_of_ne t _ hne hx
    · exact (Config.validate_eq_ok_iff _).mpr ⟨hsupported, rfl, rfl⟩

/-- Whatever the file tree, the framework and the path, and however the command is written: it fails
and changes nothing exactly if there is a reason to refuse, and else it makes the file and changes
nothing else, and the file loads to the standard configuration with that framework, as it is seen
from the directory of the file. Every path but the empty one can be asked for. -/
theorem init_all_or_nothing (t : FileTree) (framework output : String) (force : Bool) :
    let r := (Command.init framework output force).run t
    (∀ arguments, ofArguments arguments = .ok (.init framework output force) →
        call t arguments = r) ∧
      (output ≠ "" → call t (initArguments framework output force) = r) ∧
      (RefusesInit t framework output force ∧ r.code ≠ 0 ∧ r.tree = t ∨
        ¬ RefusesInit t framework output force ∧
          ∃ l, Initialized t framework output r l) := by
  intro r
  have hcall : ∀ arguments, ofArguments arguments = .ok (.init framework output force) →
      call t arguments = r := fun arguments h => by rw [call, h]
  -- that a command can be written at all is not said by the first part, so the second one does
  refine ⟨hcall, fun h => hcall _ (ofArguments_initArguments framework h force), ?_⟩
  by_cases h : RefusesInit t framework output force
  · exact Or.inl ⟨h, failed_of_refusesInit h⟩
  · exact Or.inr ⟨h, exists_initialized h⟩

end Command

end IconCompiler
