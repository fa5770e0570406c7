import IconCompiler.Proofs.Generation.Hooks
import IconCompiler.Proofs.Icon.Opened
import IconCompiler.Proofs.Variant.Embedding

/-!
The preview of a run. Its cards are made anew from the drawings, and still show what the components
hold: each drawing that was compiled is read and recoloured a second time in the same way. Since
values are escaped, no text of a drawing can be taken for a card or for a drawing of its own.
-/

namespace IconCompiler

open Text

/-! ## The page -/

namespace Preview

/-- The names of the elements that every card has once. -/
def cardElements : List (List Char) := ["svg".toList, "figure".toList]

variable {p : List Char} {framework name : String} {icon : Icon} {cards : List String}

theorem isPart_of_mem_cardElements (hp : p ∈ cardElements) : Xml.IsPart p := by
  revert p
  decide

theorem isPrefixOf_eq_false_of_mem_cardElements (hp : p ∈ cardElements) (e : Element) :
    p.isPrefixOf e.name.toList = false := by
  revert p
  cases e <;> decide

/-- How often a card opens its elements in front of the document and behind it. -/
theorem occurrences?_card : ∀ p ∈ cardElements,
    occurrences? ('<' :: p) "      <figure class=\"icon\">".toList =
        some (if p = "figure".toList then 1 else 0) ∧
      occurrences? ('<' :: p) "<figcaption>".toList = some 0 ∧
      occurrences? ('<' :: p) "</figcaption></figure>".toList = some 0 := by
  decide

/-- The figure is opened by the card itself, and the drawing by the document in it. -/
theorem adds_card (hp : p ∈ cardElements) (hname : ComponentName.isValid name = true)
    (hkeys : Node.ForestForall (fun a => AttributeName.IsKey a.1) icon) :
    Adds ('<' :: p) (card name icon).toList 1 := by
  obtain ⟨hopen, hcaption, hclose⟩ := occurrences?_card p hp
  have hdocument := Markup.adds_document .standard (isPart_of_mem_cardElements hp)
    (isPrefixOf_eq_false_of_mem_cardElements hp) hkeys
  have hlabel : Adds ('<' :: p) name.toList 0 :=
    Adds.of_not_mem (ComponentName.not_mem_of_isValid hname '<' (by decide))
  have hall := ((((Adds.of_occurrences? hopen).append hdocument).before
    (.of_occurrences? hcaption)).before hlabel).before (.of_occurrences? hclose)
  have honce : ∀ q ∈ cardElements, (if q = "figure".toList then 1 else 0) +
      (if q.isPrefixOf "svg".toList then 1 else 0) = 1 := by
    decide
  rw [honce p hp] at hall
  unfold card
  simp only [String.toList_append]
  exact hall

set_option maxRecDepth 8000 in
/-- Around the cards nothing is opened that a card has once. -/
theorem adds_page (hp : p ∈ cardElements) (hframework : '<' ∉ framework.toList)
    (hcards : ∀ c ∈ cards, Adds ('<' :: p) c.toList 1) :
    Adds ('<' :: p) (page framework cards).toList cards.length := by
  have hcount : Adds ('<' :: p) (toString cards.length).toList 0 :=
    Adds.of_not_mem fun hmem => absurd (Markup.of_mem_repr hmem) (by decide)
  have hid : Adds ('<' :: p) framework.toList 0 := Adds.of_not_mem hframework
  have hlist : Adds ('<' :: p) ("\n".intercalate cards).toList cards.length := by
    have hline : Adds ('<' :: p) "\n".toList 0 := Adds.of_not_mem (by decide)
    rw [String.toList_intercalate]
    simpa using hline.intercalate hcards
  have hplain : ∀ {s : String} {cs : List Char}, s = String.ofList cs →
      (∀ q ∈ cardElements, occurrences? ('<' :: q) cs = some 0) → Adds ('<' :: p) s.toList 0 :=
    fun hs h => Adds.of_ofList hs (h p hp)
  unfold page
  simp only [String.toList_append]
  refine (Adds.behind ?_ hlist).before (hplain rfl (by decide +kernel))
  refine Adds.before (.before (.before (.before (.before (.before ?_ hcount) ?_) hid) ?_) hcount) ?_
  all_goals exact hplain rfl (by decide +kernel)

theorem infix_append_of_ends {a b front rest : List Char} (ha : a <:+ front) (m : List Char)
    (hb : b <+: rest) : a ++ m ++ b <:+: front ++ m ++ rest := by
  obtain ⟨x, rfl⟩ := ha
  obtain ⟨y, rfl⟩ := hb
  exact ⟨x, y, by simp only [List.append_assoc]⟩

set_option maxRecDepth 8000 in
/-- The heading of the page counts its cards. -/
theorem heading_infix_page (framework : String) (cards : List String) :
    ("<h1>" ++ toString cards.length ++ " icons</h1>").toList <:+:
      (page framework cards).toList := by
  have hends : ∀ {s : String} {cs front : List Char}, s = String.ofList cs →
      "<h1>".toList <:+ cs → "<h1>".toList <:+ front ++ s.toList := by
    intro s cs front hs h
    have hchars : s.toList = cs := by rw [hs, String.toList_ofList]
    exact hchars ▸ h.trans (List.suffix_append front cs)
  have hbegins : ∀ {s : String} {cs : List Char}, s = String.ofList cs →
      " icons</h1>".toList <+: cs → " icons</h1>".toList <+: s.toList := by
    intro s cs hs h
    have hchars : s.toList = cs := by rw [hs, String.toList_ofList]
    exact hchars ▸ h
  unfold page
  simp only [String.toList_append]
  refine List.IsInfix.trans ?_ ((List.prefix_append _ _).trans (List.prefix_append _ _)).isInfix
  exact infix_append_of_ends (hends rfl (by decide +kernel)) _ (hbegins rfl (by decide +kernel))

end Preview

/-! ## Components and their drawings -/

namespace Job

variable {j : Job} {v : Variant} {h : LiveHooks} {w : Writer} {t : FileTree} {s : Session}
  {past : List Action} {done : List CompiledIcon} {file : SourceFile} {files : List SourceFile}
  {compiled : CompiledIcon} {runtime : GeneratedFile}

/-- What is behind a component: it was handed to the hook after it with the literal of this icon in
it, and the icon is the drawing that the hook before it answered, recoloured as the run asks for. -/
structure Holds (j : Job) (v : Variant) (compiled : CompiledIcon) (icon : Icon) : Prop where
  valid : ComponentName.isValid compiled.name = true
  fileName : compiled.file.fileName = v.componentFileName compiled.name j.config.typescript
  drawn : ∃ drawn, Icon.ofSvg compiled.svg = .ok drawn ∧
    drawn.normalized j.config.keepColors = icon
  code : compiled.code = v.textBefore j.config.typescript compiled.name ++
    Literal.icon v.keyStyle v.nodeIndent icon ++ v.textBehind j.config.typescript compiled.name

theorem exists_holds_of_attended (hv : Registry.builtin.get? j.config.framework = some v)
    (ha : j.Attended h past done file (.compiled compiled)) : ∃ icon, j.Holds v compiled icon := by
  cases ha with
  | compiled valid free compiles =>
    rename_i made
    cases hread : Icon.ofSvg (h.beforeParse past file.content file.fileName) with
    | error cause =>
      rw [CompileOptions.compileComponent_of_error hv _ hread] at compiles
      contradiction
    | ok icon =>
      obtain ⟨text, htext, hmade⟩ := CompileOptions.compileComponent_of_ok (o := j.options) hv
        (j.naming.componentName file.fileName) hread
      obtain rfl := Except.ok.inj (hmade.symm.trans compiles)
      have hcode := Variant.renderComponent_eq (Registry.mem_builtins_of_get? hv)
        (j.naming.componentName file.fileName) j.options.typed j.options.keepColors icon
      exact ⟨icon.normalized j.config.keepColors, valid, rfl, ⟨icon, hread, rfl⟩,
        Except.ok.inj (htext.symm.trans hcode)⟩

theorem AttendedAll.exists_holds (hv : Registry.builtin.get? j.config.framework = some v)
    {vs : List (SourceFile × Verdict)} (has : j.AttendedAll h past done files vs) :
    ∀ i ∈ vs.filterMap (·.2.icon?), ∃ icon, j.Holds v i icon := by
  intro i hi
  obtain ⟨⟨file, verdict⟩, he, hicon⟩ := List.mem_filterMap.mp hi
  obtain ⟨before, after, rfl⟩ := List.append_of_mem he
  have ha := has.each before (file, verdict) after rfl
  cases verdict with
  | compiled icon =>
    obtain rfl := Option.some.inj hicon
    exact exists_holds_of_attended hv ha
  | unnamed _ | taken _ _ | rejected _ _ => contradiction

/-- The card of a component shows the icon that the component holds. -/
theorem Holds.cardOf?_eq {icon : Icon} (hi : j.Holds v compiled icon) :
    Preview.cardOf? j.options.keepColors compiled.name compiled.svg =
      some (Preview.card compiled.name icon) := by
  obtain ⟨drawn, hread, rfl⟩ := hi.drawn
  rw [Preview.cardOf?, hread]
  rfl

theorem Holds.isKey {icon : Icon} (hi : j.Holds v compiled icon) :
    Node.ForestForall (fun a => AttributeName.IsKey a.1) icon := by
  obtain ⟨drawn, hread, rfl⟩ := hi.drawn
  exact (Node.forestForall_iff _ _).mpr fun a ha => Icon.isKey_of_mem_normalized hread ha

/-! ## Files that hooks have been at -/

theorem isName_of_mem_filesFor (hv : Registry.builtin.get? j.config.framework = some v)
    (hruntime : j.options.compileRuntime = .ok runtime) {icons : List CompiledIcon}
    (hicons : ∀ i ∈ icons, ∃ icon, j.Holds v i icon) :
    ∀ f ∈ j.filesFor v runtime icons, Path.IsName f.fileName := by
  have hnames := Variant.namesFiles_of_mem_builtins (Registry.mem_builtins_of_get? hv)
  intro f hf
  simp only [filesFor, List.mem_append, List.mem_cons, List.mem_map, List.mem_ite_nil_right,
    List.not_mem_nil, or_false] at hf
  rcases hf with ((rfl | ⟨i, hi, rfl⟩) | hf) | ⟨-, rfl⟩
  · rw [compileRuntime_eq_ok hv hruntime]
    exact hnames.isName_runtimeFileName _
  · obtain ⟨icon, hholds⟩ := hicons i hi
    rw [hholds.fileName]
    exact hnames.isName_componentFileName _ hholds.valid
  · unfold indexOf at hf
    split at hf
    · obtain rfl := List.mem_singleton.mp hf
      exact hnames.isName_indexFileName _
    · contradiction
  · exact show Path.IsName Preview.fileName by decide

end Job

/-- Hooks that leave nothing in a tree under a name that a file cannot have. -/
def LiveHooks.KeepsNames (h : LiveHooks) : Prop :=
  ∀ past c t, FileTree.ProperlyNamed t → (h.touch past c t).ProperlyNamed

namespace Running

variable {h : LiveHooks} {w : Writer} {out : String} {s s' : Session} {a : Action}
  {as : List Action}

theorem named_of_perform (hh : h.KeepsNames) (hwrites : Progress.Writes a)
    (hs : s.progress.tree.ProperlyNamed) (ha : perform h w out a s = .ok () s') :
    s'.progress.tree.ProperlyNamed := by
  obtain ⟨p, hp, rfl⟩ := take_of_perform ha
  have hall := Progress.takeAll_singleton.mpr hp
  have hnamed := (Progress.wroteAmong_takeAll (by simpa using hwrites) hall).1.named hs
  cases a with
  | call c => exact hh _ c _ hnamed
  | write f => exact hnamed
  | clean extension mark keep => exact hwrites.elim

theorem named_of_performAll (hh : h.KeepsNames) (hwrites : ∀ a ∈ as, Progress.Writes a)
    (hs : s.progress.tree.ProperlyNamed) (has : performAll h w out as s = .ok () s') :
    s'.progress.tree.ProperlyNamed := by
  induction as generalizing s with
  | nil =>
    rw [performAll_nil, pure_eq_ok] at has
    exact has.2 ▸ hs
  | cons a as ih =>
    rw [performAll_cons, bind_eq_ok] at has
    obtain ⟨_, s₁, ha, has⟩ := has
    rw [List.forall_mem_cons] at hwrites
    exact ih hwrites.2 (named_of_perform hh hwrites.1 hs ha) has

/-- A file that was written last can be read. -/
theorem readText_of_performAll {f : GeneratedFile} (hw : w.dryRun = false)
    (hf : Path.IsName f.fileName) (has : performAll h w out (as ++ [.write f]) s = .ok () s') :
    s'.progress.tree.readText (Path.join out f.fileName) = .ok f.contents := by
  obtain ⟨s₁, -, hwrite⟩ := performAll_append_eq_ok.mp has
  obtain ⟨p, hp, rfl⟩ := take_of_perform (performAll_singleton_eq_ok.mp hwrite)
  obtain ⟨o, t, hfile, rfl⟩ := Progress.take_write hp
  obtain ⟨d, hwrote⟩ := Writer.wrote_of_write hw hf hfile
  exact hwrote.readText

end Running

namespace Job

open Running

variable {j : Job} {v : Variant} {h : LiveHooks} {w : Writer} {t : FileTree} {s s' : Session}
  {files : List SourceFile} {runtime : GeneratedFile}

/-- Cleaning up at the end of a run takes the preview for no component. -/
theorem readText_preview_of_clean {vs : List (SourceFile × Verdict)} {index : Option GeneratedFile}
    {text : String} (hv : Registry.builtin.get? j.config.framework = some v)
    (hw : w.dryRun = false) (hs : s.progress.tree.ProperlyNamed)
    (hread : s.progress.tree.readText (Path.join j.config.output Preview.fileName) = .ok text)
    (hclean : performAll h w j.config.output (if j.config.generate.cleanOutput then
      [.clean (v.component.pick j.config.typescript) (marker runtime.fileName)
        (kept v j.config.typescript runtime vs index)] else []) s = .ok () s') :
    s'.progress.tree.readText (Path.join j.config.output Preview.fileName) = .ok text := by
  have hother := extension?_preview_ne (Variant.namesFiles_of_mem_builtins
    (Registry.mem_builtins_of_get? hv)) j.config.typescript
  split at hclean
  · obtain ⟨p, hp, rfl⟩ := take_of_perform (performAll_singleton_eq_ok.mp hclean)
    exact Progress.readText_of_take_clean hw hs (by decide) (Or.inr hother) hp hread
  · rw [performAll_nil, pure_eq_ok] at hclean
    exact hclean.2 ▸ hread

/-- The last hook of a run finds the preview as it was written. -/
theorem exists_last_of_performAll {vs : List (SourceFile × Verdict)}
    (hv : Registry.builtin.get? j.config.framework = some v)
    (hnames : ∀ f ∈ j.filesFor v runtime (vs.filterMap (·.2.icon?)), Path.IsName f.fileName)
    (hp : j.config.generate.preview = true) (hw : w.dryRun = false) (ht : t.ProperlyNamed)
    (hh : h.KeepsNames) (hall : performAll h w j.config.output
      (.write runtime :: (vs.flatMap fun e => e.2.actions e.1) ++
        j.closing v runtime vs (j.indexOf v (vs.filterMap (·.2.icon?)))) (.start t) = .ok () s) :
    ∃ last, s.progress.tree = h.touch s.past.dropLast (.complete (.ofVerdicts vs)) last ∧
      last.readText (Path.join j.config.output Preview.fileName) =
        .ok (j.previewFile (vs.filterMap (·.2.icon?))).contents := by
  -- the preview is the last file, with the clean-up and the last hook behind it
  rw [opening_append_closing] at hall
  obtain ⟨s₂, hall, hcall⟩ := performAll_append_eq_ok.mp hall
  obtain ⟨s₁, hwriting, hclean⟩ := performAll_append_eq_ok.mp hall
  rw [filesFor, ← filterMap_writing] at hnames
  have hnamed := named_of_performAll hh (fun a ha => writes_of_mem_writing hnames ha) ht hwriting
  have hwritten := hwriting
  rw [writing, if_pos hp] at hwritten
  have hread := readText_of_performAll hw (show Path.IsName Preview.fileName by decide) hwritten
  have hkept := readText_preview_of_clean hv hw hnamed hread hclean
  rw [performAll_cons, perform_call_bind, performAll_nil, pure_eq_ok] at hcall
  obtain ⟨-, rfl⟩ := hcall
  exact ⟨s₂.progress.tree, by rw [List.dropLast_concat], hkept⟩

section

variable {icons : List CompiledIcon} {drawn : CompiledIcon → Icon}

/-- No component is left out of the preview. -/
theorem previewFile_eq (hdrawn : ∀ i ∈ icons, j.Holds v i (drawn i)) :
    j.previewFile icons = ⟨Preview.fileName, Preview.page j.config.framework
      (icons.map fun i => Preview.card i.name (drawn i))⟩ := by
  have hcards : (icons.filterMap fun i => Preview.cardOf? j.options.keepColors i.name i.svg) =
      icons.map fun i => Preview.card i.name (drawn i) := by
    rw [← List.filterMap_eq_map]
    exact List.filterMap_congr fun i hi => (hdrawn i hi).cardOf?_eq
  rw [previewFile, hcards]

theorem occurrences_page (hv : Registry.builtin.get? j.config.framework = some v)
    (hdrawn : ∀ i ∈ icons, j.Holds v i (drawn i)) :
    ∀ p ∈ Preview.cardElements, occurrences ('<' :: p) (Preview.page j.config.framework
      (icons.map fun i => Preview.card i.name (drawn i))).toList = icons.length := by
  have hids : ∀ id ∈ Registry.builtin.keys, '<' ∉ id.toList := by decide +kernel
  have hframework : j.config.framework ∈ Registry.builtin.keys := by
    rw [← Table.get?_isSome_iff, hv]
    rfl
  intro p hp
  rw [← icons.length_map]
  refine (Preview.adds_page hp (hids _ hframework) fun c hc => ?_).occurrences_eq
  obtain ⟨i, hi, rfl⟩ := List.mem_map.mp hc
  exact Preview.adds_card hp (hdrawn i hi).valid (hdrawn i hi).isKey

end

/-- The preview of a run that comes to its end, whatever the drawings are and the hooks answer. It
has one card for each component, in the order of the components, with the name and with the document
of the very icon whose literal the component held before the hook after it was called. It counts as
many icons as the run counts successes, and as often a figure and a drawing are opened in its text.
Unless the run is a dry one, the last hook finds the preview like this. -/
theorem preview_shows_components {report : GenerationReport}
    (hp : j.config.generate.preview = true)
    (hok : j.generate h w files (.start t) = .ok report s) :
    ∃ v runtime vs, ∃ icons : List CompiledIcon, ∃ drawn : CompiledIcon → Icon, ∃ page,
      Registry.builtin.get? j.config.framework = some v ∧
      j.AttendedAll h [.write runtime] [] files vs ∧ vs.filterMap (·.2.icon?) = icons ∧
      (∀ i ∈ icons, j.Holds v i (drawn i)) ∧ icons.length = report.stats.success ∧
      page = Preview.page j.config.framework
        (icons.map fun i => Preview.card i.name (drawn i)) ∧
      report.outputs = (runtime :: icons.map CompiledIcon.file ++ (j.indexOf v icons).toList ++
        [GeneratedFile.mk Preview.fileName page]).map (j.outputOf w) ∧
      ("<h1>" ++ toString report.stats.success ++ " icons</h1>").toList <:+: page.toList ∧
      occurrences "<figure".toList page.toList = report.stats.success ∧
      occurrences "<svg".toList page.toList = report.stats.success ∧
      (w.dryRun = false → t.ProperlyNamed → h.KeepsNames → ∃ last,
        s.progress.tree = h.touch s.past.dropLast (.complete report.stats) last ∧
        last.readText (Path.join j.config.output Preview.fileName) = .ok page) := by
  obtain ⟨v, runtime, vs, hv, hruntime, has, rfl, hall⟩ := performed_of_generate hok
  have hholds := has.exists_holds hv
  have hnames := isName_of_mem_filesFor hv hruntime hholds
  choose! drawn hdrawn using hholds
  have hfile := previewFile_eq hdrawn
  have hopened := occurrences_page hv hdrawn
  have hsuccess := success_ofVerdicts vs
  refine ⟨v, runtime, vs, _, drawn, _, hv, has, rfl, hdrawn, hsuccess.symm, rfl, ?_, ?_, ?_, ?_, ?_⟩
  · have houtputs := (Performed.of_performAll hall).outputs
    rw [filterMap_opening_append_closing, filesFor, if_pos hp, hfile] at houtputs
    exact houtputs
  · have hheading := Preview.heading_infix_page j.config.framework
      ((vs.filterMap (·.2.icon?)).map fun i => Preview.card i.name (drawn i))
    rwa [List.length_map, ← hsuccess] at hheading
  · rw [hsuccess]
    exact hopened "figure".toList (by decide)
  · rw [hsuccess]
    exact hopened "svg".toList (by decide)
  · intro hw ht hh
    obtain ⟨last, htree, hread⟩ := exists_last_of_performAll hv hnames hp hw ht hh hall
    rw [hfile] at hread
    exact ⟨last, htree, hread⟩

/-- A run that writes a preview of Vue components. -/
def previewed : Job :=
  .ofConfig { (sample "vue").config with generate := ⟨false, true, false⟩ }

/-- A drawing with a text that is markup of its own, and one that cannot be read. -/
def previewedDrawings : List SourceFile :=
  [⟨"icons/tag.svg", "tag.svg", "<svg><path d=\"&lt;svg>&lt;figure>\"/></svg>"⟩,
    ⟨"icons/torn.svg", "torn.svg", "<svg"⟩]

/-- The text of the one drawing opens nothing, and the other one has no card. -/
theorem preview_of_tag :
    previewed.config.generate.preview = true ∧ ∃ report s page,
      previewed.generate Hooks.identity.live (.reliable false) previewedDrawings
        (.start (.fresh "work")) = .ok report s ∧
      report.stats.success = 1 ∧ occurrences "<figure".toList page.toList = 1 ∧
      occurrences "<svg".toList page.toList = 1 ∧
      s.progress.tree.readText "out/preview.html" = .ok page := by
  have hcounted : ((previewed.runWith Hooks.identity.live (.reliable false) (.fresh "work")
      previewedDrawings).report.toOption.map (·.stats.success)) = some 1 := by
    decide +kernel
  obtain ⟨report, hreport⟩ := exists_report_of_isSome (show (previewed.runWith Hooks.identity.live
    (.reliable false) (.fresh "work") previewedDrawings).report.toOption.isSome = true by
      rw [← Option.isSome_map, hcounted]
      rfl)
  rw [hreport] at hcounted
  have hsuccess : report.stats.success = 1 := Option.some.inj hcounted
  obtain ⟨s, hok, -⟩ := exists_generate_of_runWith hreport
  obtain ⟨v, runtime, vs, icons, drawn, page, -, -, -, -, -, -, -, -, hfigures, hdrawings, hlast⟩ :=
    preview_shows_components (show previewed.config.generate.preview = true from rfl) hok
  rw [hsuccess] at hfigures hdrawings
  obtain ⟨last, htree, hread⟩ := hlast rfl (.fresh "work" (by decide)) fun _ _ _ ht => ht
  obtain rfl : s.progress.tree = last := htree
  have hpath : Path.join previewed.config.output Preview.fileName = "out/preview.html" := by decide
  rw [hpath] at hread
  exact ⟨rfl, report, s, page, hok, hsuccess, hfigures, hdrawings, hread⟩

end Job

end IconCompiler
