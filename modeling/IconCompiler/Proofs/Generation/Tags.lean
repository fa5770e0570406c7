import IconCompiler.Proofs.Generation.Components
import IconCompiler.Proofs.Generation.Outputs
import IconCompiler.Proofs.Variant.Tag

/-!
The tags of the components of one run. Components are told apart by their names, and their tags keep
less than the names: two are the same where the words of two names differ in capitals only.
-/

namespace IconCompiler

namespace Job

variable {j : Job} {v : Variant} {files : List SourceFile}

theorem nodup_tags_iff (hv : Registry.builtin.get? j.config.framework = some v) :
    ((j.icons files).map fun i => Variant.tagName i.name).Nodup ↔
      (j.icons files).Pairwise fun a b =>
        Text.foldedWords a.name.toList ≠ Text.foldedWords b.name.toList := by
  rw [List.Nodup, List.pairwise_map]
  refine List.Pairwise.iff_of_mem fun {a b} ha hb => ?_
  exact not_congr (Variant.tagName_eq_iff (mem_icons_verdicts hv ha).1 (mem_icons_verdicts hv hb).1)

/-- Names all of whose words begin with a capital or are numbers have tags of their own. -/
theorem nodup_tags_of_isPlain (hv : Registry.builtin.get? j.config.framework = some v)
    (h : ∀ i ∈ j.icons files, Text.isPlain i.name = true) :
    ((j.icons files).map fun i => Variant.tagName i.name).Nodup := by
  have hnames := nodup_names_icons files hv
  rw [List.Nodup, List.pairwise_map] at hnames
  refine (nodup_tags_iff hv).mpr (hnames.imp_of_mem fun {a b} ha hb hne hwords => hne ?_)
  exact Text.eq_of_foldedWords_eq (h a ha) (h b hb) hwords

/-- The components of a run that comes to its end are its successes, and each has the tag of its
name. The tags are different exactly if no two names have the same words but for capitals, which is
so where every word begins with a capital or is a number. -/
theorem tags_distinct_iff {w : Writer} {t : FileTree} {report : GenerationReport}
    (h : (j.run w t files).report = .ok report) :
    ∃ v, Registry.builtin.get? j.config.framework = some v ∧
      report.stats.success = (j.icons files).length ∧
      (∀ i ∈ j.icons files, v.Tagged i.name i.code) ∧
      (((j.icons files).map fun i => Variant.tagName i.name).Nodup ↔
        (j.icons files).Pairwise fun a b =>
          Text.foldedWords a.name.toList ≠ Text.foldedWords b.name.toList) ∧
      ((∀ i ∈ j.icons files, Text.isPlain i.name = true) →
        ((j.icons files).map fun i => Variant.tagName i.name).Nodup) := by
  obtain ⟨p, stats, -, hresult, rfl, -⟩ := run_eq_ok h
  obtain ⟨v, runtime, index, ho⟩ := outline_of_plan hresult
  refine ⟨v, ho.variant, ?_, fun i hi => ?_, nodup_tags_iff ho.variant,
    nodup_tags_of_isPlain ho.variant⟩
  · rw [stats_of_plan hresult]
    exact success_ofVerdicts _
  · obtain ⟨-, tree, hcode⟩ := renderComponent_of_mem_icons ho.variant hi
    exact Variant.tagged_of_renderComponent hcode

theorem tags_distinct_of_arrows :
    ∃ report, ((sample "lit").run (.reliable false) (.fresh "work")
        [⟨"arrow-left.svg", "arrow-left.svg", "<svg/>"⟩,
          ⟨"arrow-left-2.svg", "arrow-left-2.svg", "<svg/>"⟩]).report = .ok report ∧
      report.stats.success = 2 ∧
      (((sample "lit").icons [⟨"arrow-left.svg", "arrow-left.svg", "<svg/>"⟩,
        ⟨"arrow-left-2.svg", "arrow-left-2.svg", "<svg/>"⟩]).map fun i =>
          Variant.tagName i.name).Nodup := by
  obtain ⟨report, h⟩ := exists_report_of_isSome (show ((sample "lit").run (.reliable false)
    (.fresh "work") [⟨"arrow-left.svg", "arrow-left.svg", "<svg/>"⟩,
      ⟨"arrow-left-2.svg", "arrow-left-2.svg", "<svg/>"⟩]).report.toOption.isSome = true by
        decide +kernel)
  obtain ⟨v, -, hsuccess, -, -, hplain⟩ := tags_distinct_iff h
  exact ⟨report, h, hsuccess.trans (by decide +kernel), hplain (by decide +kernel)⟩

/-- Two drawings whose names are made of the same letters. -/
def oneTag : List SourceFile :=
  [⟨"a-b.svg", "a-b.svg", "<svg><path d=\"M0 0\"/></svg>"⟩,
    ⟨"ab.svg", "ab.svg", "<svg><path d=\"M1 1\"/></svg>"⟩]

/-- Both drawings compile, under names of their own, and both components have one tag, under which
the second is never registered. -/
theorem tag_shared :
    (sample "lit").config.validate = .ok () ∧
      ((sample "lit").run (.reliable false) (.fresh "work") oneTag).report.toOption.map
        (·.stats.success) = some 2 ∧
      ((sample "lit").icons oneTag).map (·.name) = ["AB", "Ab"] ∧
      (∀ i ∈ (sample "lit").icons oneTag, ∃ front,
        i.code = front ++ "createIcon('" ++ i.name ++ "', 'vectify-ab', iconNode)\n") ∧
      ¬ (((sample "lit").icons oneTag).map fun i => Variant.tagName i.name).Nodup := by
  have hnames : ((sample "lit").icons oneTag).map (·.name) = ["AB", "Ab"] := by decide +kernel
  have htag : ∀ i ∈ (sample "lit").icons oneTag, Variant.tagName i.name = "vectify-ab" := by
    intro i hi
    have hboth : ∀ n ∈ ["AB", "Ab"], Variant.tagName n = "vectify-ab" := by decide
    exact hboth _ (hnames ▸ List.mem_map_of_mem hi)
  refine ⟨by decide +kernel, by decide +kernel, hnames, fun i hi => ?_, fun hn => ?_⟩
  · obtain ⟨-, tree, hcode⟩ := renderComponent_of_mem_icons (v := .lit) rfl hi
    obtain ⟨front, hfront⟩ := Variant.element_lit hcode
    refine ⟨front, hfront.trans ?_⟩
    rw [htag i hi]
    simp [String.append_assoc]
  · have htags := List.map_congr_left htag
    have hlength : ((sample "lit").icons oneTag).length = 2 := by
      rw [← List.length_map (·.name), hnames]
      rfl
    rw [htags, List.map_const', hlength] at hn
    exact absurd hn (by decide)

end Job

end IconCompiler
