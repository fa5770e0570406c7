import IconCompiler.CommandLine.Command
import IconCompiler.Proofs.Table
import IconCompiler.Proofs.Text.Front

/-! Reading options that are written out with their long names. -/

namespace IconCompiler

theorem Argument.of_long {name : List Char} (hname : '=' ∉ name) (hne : name ≠ [])
    (value : List Char) :
    Argument.of ('-' :: '-' :: (name ++ '=' :: value)) = .long name (some value) := by
  rw [Argument.of]
  · rw [Text.takeWhile_ne hname, Text.dropWhile_ne hname]
  · simp [hne]

/-- An option with its value behind an equals sign is entered, unless it is there already or its
value is missing. -/
theorem readOptions_long {forms : List OptionForm} {f : OptionForm} {s : Settings}
    (hform : forms.find? (·.name.toList = f.name.toList) = some f) (htakes : f.takesValue = true)
    (hname : '=' ∉ f.name.toList) (hne : f.name.toList ≠ []) {value : String}
    (hnew : s.has f.name = false) (hvalue : f.kind = .path → value ≠ "") (rest : List String) :
    readOptions forms s none (("--" ++ f.name ++ "=" ++ value) :: rest) =
      readOptions forms (s.put f.name value) none rest := by
  have hargument : Argument.of ("--" ++ f.name ++ "=" ++ value).toList =
      .long f.name.toList (some value.toList) := by
    rw [← Argument.of_long hname hne]
    simp
  have henter : f.enter s value = .ok (s.put f.name value) := by
    rw [OptionForm.enter, hnew, if_neg]
    simpa [String.isEmpty_iff] using hvalue
  have hread : readLong forms s f.name.toList (some value.toList) =
      .ok (s.put f.name value, none) := by
    simp only [readLong, hform, htakes, if_true, String.ofList_toList, henter, Except.map]
  rw [readOptions.eq_def]
  simp only [hargument, hread, bind, Except.bind]

namespace Command

/-- The arguments that ask for a configuration file, with every option written out. -/
def initArguments (framework output : String) (force : Bool) : List String :=
  ["init", "--framework=" ++ framework, "--output=" ++ output] ++
    if force then ["--force"] else []

theorem ofArguments_initArguments (framework : String) {output : String} (h : output ≠ "")
    (force : Bool) :
    ofArguments (initArguments framework output force) = .ok (.init framework output force) := by
  -- the command is no option, so what stands before it is read to its end at once
  have hcommand : ∀ rest, ofArguments ("init" :: rest) = readInit rest := fun _ => rfl
  have hframework : ∀ rest, readOptions initOptions .empty none
        (("--framework=" ++ framework) :: rest) =
      readOptions initOptions (Table.put .empty "framework" framework) none rest := fun rest =>
    readOptions_long (f := ⟨"framework", some 'f', .text⟩) (by decide) rfl (by decide) (by decide)
      rfl (by simp) rest
  have houtput : ∀ rest, readOptions initOptions (Table.put .empty "framework" framework) none
        (("--output=" ++ output) :: rest) =
      readOptions initOptions (Table.put (Table.put .empty "framework" framework) "output" output)
        none rest := fun rest =>
    readOptions_long (f := ⟨"output", some 'o', .path⟩) (by decide) rfl (by decide) (by decide)
      rfl (fun _ => h) rest
  simp only [initArguments, List.cons_append, List.nil_append]
  rw [hcommand, readInit, settings, hframework, houtput]
  cases force <;> rfl

end Command

end IconCompiler
