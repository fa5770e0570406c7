import IconCompiler.Proofs.Compilation
import IconCompiler.Proofs.Icon.Occurrences
import IconCompiler.Proofs.Icon.Parsed

/-!
The end of the script block of a single-file component. The template has one place that closes the
block, behind the literal of the icon. The literal is written without regard to the block around it,
so a text of the drawing that has the same characters closes it too.
-/

namespace IconCompiler

open Text

namespace Template

/-- In how many places the texts of a template have a piece, unless one of them ends in a beginning
of it or one of typed source has a `<`. -/
def occurrences? (piece : List Char) : List Part → Option Nat
  | [] => some 0
  | .text s :: ps =>
    match Text.occurrences? piece s.toList, occurrences? piece ps with
    | some n, some m => some (n + m)
    | _, _ => none
  | .choice _ [.text s] _ :: ps => if s.toList.contains '<' then none else occurrences? piece ps
  | _ :: ps => occurrences? piece ps

variable {name : String} {typed : Bool} {piece : List Char} {n : Nat}

theorem not_mem_value (hname : ComponentName.isValid name = true) (path : Path) :
    '<' ∉ (frameText typed name (.value path)).toList := by
  rw [frameText]
  split
  · exact Variant.not_mem_tagName hname (by decide) (by decide)
  · exact ComponentName.not_mem_of_isValid hname '<' (by decide)

theorem adds_frameTexts (hname : ComponentName.isValid name = true) {ps : List Part}
    (hframe : ps.all isFrame = true) (h : occurrences? ('<' :: piece) ps = some n) :
    Adds ('<' :: piece) (frameTexts typed name ps).toList n := by
  induction ps generalizing n with
  | nil =>
    rw [← Option.some.inj h]
    exact Adds.nil
  | cons p ps ih =>
    rw [List.all_cons, Bool.and_eq_true] at hframe
    have htexts : (frameTexts typed name (p :: ps)).toList =
        (frameText typed name p).toList ++ (frameTexts typed name ps).toList := by
      simp [frameTexts, String.join_cons]
    rw [htexts]
    obtain ⟨hp, hps⟩ := hframe
    -- a frame has texts, texts that are left out without types, and values that are names
    fun_cases isFrame p with
    | case1 s =>
      rw [occurrences?] at h
      split at h
      · rename_i k m hk hm
        rw [← Option.some.inj h]
        exact (Adds.of_occurrences? hk).append (ih hps hm)
      · contradiction
    | case2 path s =>
      rw [occurrences?] at h
      split at h
      · contradiction
      · rename_i hplain
        have hchoice : '<' ∉
            (frameText typed name (.choice (some path) [.text s] [])).toList := by
          cases typed
          · exact List.not_mem_nil
          · simpa [frameText] using hplain
        rw [← Nat.zero_add n]
        exact (Adds.of_not_mem hchoice).append (ih hps h)
    | case3 path =>
      rw [← Nat.zero_add n]
      exact (Adds.of_not_mem (not_mem_value hname path)).append (ih hps h)
    | case4 htext hchoice hvalue =>
      rw [isFrame] at hp
      · contradiction
      all_goals assumption

end Template

namespace Variant

open Template

/-- The characters that close a script block. -/
def scriptEnd : List Char := '<' :: "/script".toList

/-- The keys of an icon that was read have no `<`, nor have those of paint. -/
theorem not_mem_key_normalized {svg : String} {icon : Icon} (h : Icon.ofSvg svg = .ok icon)
    (keepColors : Bool) :
    ∀ a ∈ (icon.normalized keepColors).attributes, '<' ∉ (KeyStyle.kebab.key a.1).toList := by
  intro a ha hmem
  exact absurd ((Icon.isKey_of_mem_normalized h ha).isNameText '<' hmem) (by decide)

variable {v : Variant} {name svg : String} {icon : Icon}

theorem keyStyle_of_singleFile (hv : v = vue ∨ v = svelte) : v.keyStyle = .kebab := by
  rcases hv with rfl | rfl <;> rfl

theorem mem_builtins_of_singleFile (hv : v = vue ∨ v = svelte) : v ∈ builtins := by
  rcases hv with rfl | rfl <;> simp [builtins]

/-- In front of the literal a single-file component closes no script block, and behind it one. -/
theorem occurrences?_singleFile (hv : v = vue ∨ v = svelte) :
    Template.occurrences? scriptEnd (v.componentTemplate.takeWhile isFrame) = some 0 ∧
      Template.occurrences? scriptEnd (v.componentTemplate.dropWhile isFrame).tail = some 1 := by
  rcases hv with rfl | rfl <;> decide +kernel

theorem adds_textBefore (hv : v = vue ∨ v = svelte) (hname : ComponentName.isValid name = true)
    (typed : Bool) : Adds scriptEnd (v.textBefore typed name).toList 0 :=
  adds_frameTexts hname List.all_takeWhile (occurrences?_singleFile hv).1

theorem adds_textBehind (hv : v = vue ∨ v = svelte) (hname : ComponentName.isValid name = true)
    (typed : Bool) : Adds scriptEnd (v.textBehind typed name).toList 1 := by
  obtain ⟨after, -, htail, hafter⟩ :=
    exists_of_embedsLiteral (embedsLiteral_builtins (mem_builtins_of_singleFile hv))
  exact adds_frameTexts hname (htail ▸ hafter) (occurrences?_singleFile hv).2

theorem adds_literal (hv : v = vue ∨ v = svelte) (hsvg : Icon.ofSvg svg = .ok icon)
    (keepColors : Bool) : Adds scriptEnd (v.literal keepColors icon).toList
      (occurrencesIn scriptEnd (icon.normalized keepColors).texts) := by
  have hplain : ∀ c ∈ "/script".toList, Literal.escape c = [c] := by simp [Literal.escape]
  rw [literal, keyStyle_of_singleFile hv]
  exact Literal.adds_icon hplain .kebab v.nodeIndent (not_mem_key_normalized hsvg keepColors)

/-- A text among the values of a recoloured icon that closes a script block is one of the
drawing. -/
theorem mem_texts_of_closes {keepColors : Bool} {s : String}
    (h : s ∈ (icon.normalized keepColors).texts) (hs : scriptEnd <:+: s.toList) :
    s ∈ icon.texts := by
  obtain ⟨a, ha, htext⟩ := Icon.mem_texts_iff.mp h
  rcases Icon.of_mem_normalized ha with ha | ⟨-, ha⟩
  · exact Icon.mem_texts_iff.mpr ⟨a, ha, htext⟩
  · have hpaint : ∀ b ∈ Attributes.paints, ∀ t ∈ b.2.text?, '<' ∉ t.toList := by decide +kernel
    have hmem : '<' ∈ s.toList := hs.subset List.mem_cons_self
    exact absurd hmem (hpaint a ha s (AttrValue.text?_eq_some_iff.mpr htext))

/-- The component of an icon that was read, and how often it closes a script block. -/
theorem exists_component_singleFile (hv : v = vue ∨ v = svelte)
    (hname : ComponentName.isValid name = true) (hsvg : Icon.ofSvg svg = .ok icon)
    (typed keepColors : Bool) :
    ∃ text, CompileOptions.compileComponent ⟨v.id, typed, keepColors⟩ name svg =
        .ok ⟨v.componentFileName name typed, text⟩ ∧
      text = v.textBefore typed name ++ v.literal keepColors icon ++ v.textBehind typed name ∧
      occurrences scriptEnd text.toList =
        occurrencesIn scriptEnd (icon.normalized keepColors).texts + 1 := by
  have hfound : Registry.builtin.get? (CompileOptions.mk v.id typed keepColors).variant = some v :=
    Registry.get?_builtin (mem_builtins_of_singleFile hv)
  obtain ⟨text, htext, hmade⟩ := CompileOptions.compileComponent_of_ok hfound name hsvg
  have heq : text =
      v.textBefore typed name ++ v.literal keepColors icon ++ v.textBehind typed name :=
    Except.ok.inj (htext.symm.trans
      (renderComponent_eq (mem_builtins_of_singleFile hv) name typed keepColors icon))
  have hall := ((adds_textBefore hv hname typed).append (adds_literal hv hsvg keepColors)).append
    (adds_textBehind hv hname typed)
  refine ⟨text, hmade, heq, ?_⟩
  rw [heq, String.toList_append, String.toList_append]
  simpa using hall.occurrences_eq

/-- A Vue or Svelte component closes its script block where the template does, behind the literal,
and besides as often as the texts among the values of the icon would. Keys, numbers and parameters
close nothing. -/
theorem script_closed_by_template_and_texts (hv : v = vue ∨ v = svelte)
    (hname : ComponentName.isValid name = true) (hsvg : Icon.ofSvg svg = .ok icon)
    (typed keepColors : Bool) :
    ∃ text, CompileOptions.compileComponent ⟨v.id, typed, keepColors⟩ name svg =
        .ok ⟨v.componentFileName name typed, text⟩ ∧
      text = v.textBefore typed name ++ v.literal keepColors icon ++ v.textBehind typed name ∧
      occurrences scriptEnd (v.textBefore typed name).toList = 0 ∧
      occurrences scriptEnd (v.literal keepColors icon).toList =
        occurrencesIn scriptEnd (icon.normalized keepColors).texts ∧
      occurrences scriptEnd (v.textBehind typed name).toList = 1 ∧
      occurrences scriptEnd text.toList =
        occurrencesIn scriptEnd (icon.normalized keepColors).texts + 1 ∧
      (occurrences scriptEnd text.toList = 1 ↔
        ∀ s ∈ (icon.normalized keepColors).texts, ¬ scriptEnd <:+: s.toList) ∧
      ((∀ s ∈ icon.texts, ¬ scriptEnd <:+: s.toList) →
        occurrences scriptEnd text.toList = 1) := by
  obtain ⟨text, hmade, heq, hcount⟩ := exists_component_singleFile hv hname hsvg typed keepColors
  have honce : occurrences scriptEnd text.toList = 1 ↔
      ∀ s ∈ (icon.normalized keepColors).texts, ¬ scriptEnd <:+: s.toList := by
    rw [hcount, Nat.add_eq_right]
    exact occurrencesIn_eq_zero_iff (List.cons_ne_nil _ _)
  refine ⟨text, hmade, heq, (adds_textBefore hv hname typed).occurrences_eq,
    (adds_literal hv hsvg keepColors).occurrences_eq,
    (adds_textBehind hv hname typed).occurrences_eq, hcount, honce, fun hsource => honce.mpr ?_⟩
  intro s hs hcloses
  exact hsource s (mem_texts_of_closes hs hcloses) hcloses

/-- A drawing with a key and a text that almost close the block. -/
def nearlyClosing : String := "<svg><path data-script=\"&lt;/scrip t\" d=\"M0 0\"/></svg>"

theorem script_closed_once_of_nearlyClosing :
    svelte.id = "svelte" ∧ ComponentName.isValid "Home" = true ∧
      ∃ icon text, Icon.ofSvg nearlyClosing = .ok icon ∧
        CompileOptions.compileComponent ⟨"svelte", true, false⟩ "Home" nearlyClosing =
          .ok ⟨"Home.svelte", text⟩ ∧
        occurrences scriptEnd text.toList = 1 := by
  have hvalid : ComponentName.isValid "Home" = true := by decide
  obtain ⟨icon, hicon⟩ := exists_eq_ok_of_isSome
    (show (Icon.ofSvg nearlyClosing).toOption.isSome = true by decide +kernel)
  have htexts : (Icon.ofSvg nearlyClosing).toOption.map Icon.texts =
      some ["</scrip t", "M0 0"] := by
    decide +kernel
  obtain ⟨text, hmade, -, -, -, -, -, -, honce⟩ :=
    script_closed_by_template_and_texts (Or.inr rfl) hvalid hicon true false
  have hfile : svelte.componentFileName "Home" true = "Home.svelte" := by decide
  rw [hfile] at hmade
  refine ⟨rfl, hvalid, icon, text, hicon, hmade, honce ?_⟩
  rw [hicon] at htexts
  have hicon' : icon.texts = ["</scrip t", "M0 0"] := Option.some.inj htexts
  rw [hicon']
  decide +kernel

/-- The text of this drawing closes the block a second time. -/
theorem script_closed_by_path :
    ComponentName.isValid "Home" = true ∧
      ∃ icon text, Icon.ofSvg "<svg><path d=\"&lt;/script>\"/></svg>" = .ok icon ∧
        CompileOptions.compileComponent ⟨"vue", true, false⟩ "Home"
          "<svg><path d=\"&lt;/script>\"/></svg>" = .ok ⟨"Home.vue", text⟩ ∧
        occurrences scriptEnd text.toList = 2 := by
  have hvalid : ComponentName.isValid "Home" = true := by decide
  obtain ⟨icon, hicon⟩ := exists_eq_ok_of_isSome
    (show (Icon.ofSvg "<svg><path d=\"&lt;/script>\"/></svg>").toOption.isSome = true by
      decide +kernel)
  have htexts : (Icon.ofSvg "<svg><path d=\"&lt;/script>\"/></svg>").toOption.map (fun icon =>
      (icon.normalized false).texts) = some ["</script>"] := by
    decide +kernel
  obtain ⟨text, hmade, -, hcount⟩ :=
    exists_component_singleFile (Or.inl rfl) hvalid hicon true false
  have hfile : vue.componentFileName "Home" true = "Home.vue" := by decide
  rw [hicon] at htexts
  have hicon' : (icon.normalized false).texts = ["</script>"] := Option.some.inj htexts
  rw [hfile] at hmade
  refine ⟨hvalid, icon, text, hicon, hmade, ?_⟩
  rw [hcount, hicon']
  decide +kernel

end Variant

end IconCompiler
