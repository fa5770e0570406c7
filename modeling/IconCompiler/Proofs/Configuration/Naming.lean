import IconCompiler.Proofs.ComponentName
import IconCompiler.Proofs.Generation.Cleanup
import IconCompiler.Proofs.Generation.Verdicts

/-!
Names under a configuration that is accepted. A stem in Pascal case is made of letters and digits,
and what is accepted around it of letters, digits and underscores. So a name can fail in two ways
only: there is nothing of it, or it begins with a digit.
-/

namespace IconCompiler

namespace ComponentName

theorem isAlpha_eq_false_of_isDigit {c : Char} (h : c.isDigit = true) : c.isAlpha = false :=
  Text.forall_isAlphanum (P := fun c => c.isDigit = true → c.isAlpha = false) (by decide +kernel)
    (by simp [Char.isAlphanum, h]) h

/-- Of the characters that a name may have, the digits are those that it may not begin with. -/
theorem startsName_eq_not_isDigit {c : Char} (h : (c.isAlphanum || c == '_') = true) :
    (c.isAlpha || c == '_') = !c.isDigit := by
  cases hdigit : c.isDigit with
  | true =>
    have hne : c ≠ '_' := by
      rintro rfl
      contradiction
    simp [isAlpha_eq_false_of_isDigit hdigit, hne]
  | false => simpa [Char.isAlphanum, hdigit] using h

theorem isValid_eq_false_iff {name : String}
    (h : ∀ c ∈ name.toList, (c.isAlphanum || c == '_') = true) :
    isValid name = false ↔ name = "" ∨ ∃ d ∈ name.toList.head?, d.isDigit = true := by
  rw [isValid, ← String.toList_eq_nil_iff]
  cases hname : name.toList with
  | nil => simp [isValidChars]
  | cons c cs =>
    rw [hname] at h
    obtain ⟨hc, hcs⟩ := List.forall_mem_cons.mp h
    rw [isValidChars, startsName_eq_not_isDigit hc, List.all_eq_true.mpr hcs]
    simp

end ComponentName

namespace Config

/-- What is accepted: a framework that is known, and affixes that may be part of a name. -/
theorem validate_eq_ok_iff (c : Config) :
    c.validate = .ok () ↔ Registry.builtin.has c.framework = true ∧
      isIdentifierPart c.namePrefix = true ∧ isIdentifierPart c.nameSuffix = true := by
  unfold validate checkFramework checkAffix
  cases Registry.builtin.has c.framework <;> cases isIdentifierPart c.namePrefix <;>
    cases isIdentifierPart c.nameSuffix <;> simp [bind, Except.bind]

theorem forall_mem_of_isIdentifierPart {text : String} (h : isIdentifierPart text = true) :
    ∀ c ∈ text.toList, (c.isAlphanum || c == '_') = true :=
  List.all_eq_true.mp h

end Config

namespace Job

open ComponentName

/-- The name of a drawing is its stem in Pascal case between the affixes. -/
theorem componentName_ofConfig (c : Config) (fileName : String) :
    (ofConfig c).naming.componentName fileName =
      c.namePrefix ++ pascal (stem fileName) ++ c.nameSuffix := rfl

theorem forall_mem_componentName {c : Config} (h : c.validate = .ok ()) (fileName : String) :
    ∀ x ∈ ((ofConfig c).naming.componentName fileName).toList,
      (x.isAlphanum || x == '_') = true := by
  obtain ⟨-, hprefix, hsuffix⟩ := (Config.validate_eq_ok_iff c).mp h
  intro x hx
  rw [componentName_ofConfig, String.toList_append, String.toList_append, List.mem_append,
    List.mem_append] at hx
  rcases hx with (hx | hx) | hx
  · exact Config.forall_mem_of_isIdentifierPart hprefix x hx
  · simp [isAlphanum_of_mem_pascal hx]
  · exact Config.forall_mem_of_isIdentifierPart hsuffix x hx

theorem verdict_eq_unnamed_iff (j : Job) (done : List CompiledIcon) (file : SourceFile) :
    (∃ name, j.verdict done file = .unnamed name) ↔
      isValid (j.naming.componentName file.fileName) = false := by
  constructor
  · rintro ⟨name, h⟩
    have hnone : (j.verdict done file).validName? = none := by rw [h, Verdict.validName?]
    rw [validName?_verdict] at hnone
    simpa using hnone
  · exact fun h => ⟨_, verdict_of_not_isValid done h⟩

/-- Under a configuration that is accepted the name of a file, whatever its characters, consists of
letters, digits and underscores of ASCII. It is refused, and a run refuses the drawing for it,
exactly if it is empty or begins with a digit. -/
theorem names_of_validated {c : Config} (h : c.validate = .ok ()) (fileName : String) :
    let name := (ofConfig c).naming.componentName fileName
    (∀ x ∈ name.toList, x.isAlphanum = true ∨ x = '_') ∧
      name = c.namePrefix ++ pascal (stem fileName) ++ c.nameSuffix ∧
      (isValid name = false ↔ name = "" ∨ ∃ d ∈ name.toList.head?, d.isDigit = true) ∧
      ∀ done content path, (∃ n, (ofConfig c).verdict done ⟨path, fileName, content⟩ = .unnamed n) ↔
        name = "" ∨ ∃ d ∈ name.toList.head?, d.isDigit = true := by
  have hchars := forall_mem_componentName h fileName
  have hvalid := isValid_eq_false_iff hchars
  refine ⟨fun x hx => ?_, componentName_ofConfig c fileName, hvalid, fun done content path => ?_⟩
  · simpa using hchars x hx
  · exact (verdict_eq_unnamed_iff _ done _).trans hvalid

/-- A digit in front of a ligature, whose capital form is of ASCII letters. -/
theorem digit_before_ligature_refused :
    ({ Config.standard with nameSuffix := "_v2" } : Config).validate = .ok () ∧
      pascal (stem "2-ﬁ.svg") = "2FI" ∧ isValid "2FI_v2" = false := by
  have hvalid : ({ Config.standard with nameSuffix := "_v2" } : Config).validate = .ok () := by
    decide +kernel
  have hpascal : pascal (stem "2-ﬁ.svg") = "2FI" := by decide +kernel
  obtain ⟨-, hname, hrefused, -⟩ := names_of_validated hvalid "2-ﬁ.svg"
  simp only [hpascal] at hname
  refine ⟨hvalid, hpascal, ?_⟩
  have hjoined : "" ++ "2FI" ++ "_v2" = "2FI_v2" := by decide
  rw [hname] at hrefused
  exact hjoined ▸ hrefused.mpr (Or.inr ⟨'2', by decide, by decide⟩)

end Job

end IconCompiler
