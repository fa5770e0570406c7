import IconCompiler.Icon.Markup
import IconCompiler.Proofs.Icon.DataModel

/-!
The spelling of attribute names in what is printed. Different keys of an icon that was read are
spelled differently. Names of the open families come back as they were when the word behind the
first hyphen begins with a small letter, and otherwise only if no word does.
-/

namespace IconCompiler

namespace AttributeName

/-- Names that folding leaves as they are have spellings of their own. -/
theorem eq_of_unfold_eq {s t : String} (hs : fold s = s) (ht : fold t = t)
    (h : unfold s = unfold t) : s = t := by
  rw [← fold_unfold hs, h, fold_unfold ht]

/-! ## Names without capitals -/

theorem toLower_toUpper {c : Char} (h : c.isLower = true) : c.toUpper.toLower = c := by
  obtain ⟨i, rfl⟩ := exists_of_isLower h
  revert i
  decide

/-- Every capital of a folded name stands for a hyphen if there was none before. -/
theorem unfoldChars_foldChars {cs : List Char} (h : cs.any Char.isUpper = false) :
    unfoldChars (foldChars cs) = cs := by
  -- the cases are those of folding, which changes nothing but a hyphen before a small letter
  induction cs using foldChars.induct with
  | case1 c cs hc ih =>
    simp only [List.any_cons, Bool.or_eq_false_iff] at h
    rw [foldChars_hyphen_lower hc, unfoldChars_cons, if_pos (isUpper_toUpper hc),
      toLower_toUpper hc, ih h.2.2]
    rfl
  | case2 c cs hc ih =>
    rw [List.any_cons, Bool.or_eq_false_iff] at h
    rw [foldChars, if_neg hc, unfoldChars_cons, ih h.2]
    rfl
  | case3 c cs hc ih =>
    rw [List.any_cons, Bool.or_eq_false_iff] at h
    rw [foldChars, unfoldChars_cons, h.1, ih h.2]
    · rfl
    · exact hc
  | case4 => rfl

/-- Without a hyphen in front of a small letter there is nothing to fold. -/
theorem foldChars_eq_self_iff (cs : List Char) :
    foldChars cs = cs ↔ ∀ c, ['-', c] <:+: cs → c.isLower = false := by
  constructor
  · intro h c hc
    rw [← String.toList_ofList (l := cs)] at hc
    refine not_isLower_of_fold ?_ hc
    rw [fold, String.toList_ofList, h]
  · intro h
    induction cs with
    | nil => rfl
    | cons c cs ih =>
      have hcs : foldChars cs = cs := ih fun d hd => h d (hd.trans (List.suffix_cons c cs).isInfix)
      by_cases hc : c = '-'
      · subst hc
        rw [foldChars_hyphen, hcs]
        intro d hd
        obtain ⟨ds, rfl⟩ := List.head?_eq_some_iff.mp hd
        exact h d ⟨[], ds, rfl⟩
      · rw [foldChars_cons_of_ne hc, hcs]

/-! ## Names of the families -/

/-- What stands behind the first hyphen of a name, if no hyphen of it is lost by folding: a word
that begins with a small letter, or no such word anywhere. -/
def KeepsHyphens (rest : List Char) : Prop :=
  (∃ c ∈ rest.head?, c.isLower = true) ∨ ∀ c, ['-', c] <:+: rest → c.isLower = false

variable {family name : String} {rest : List Char}

/-- The names that are known one by one are of no family. -/
theorem not_mem_of_family (hf : family ∈ hyphenFamilies) (h : family.toList <+: name.toList) :
    name ∉ camelNames ∧ name ∉ hyphenNames := by
  have hall : ((camelNames ++ hyphenNames).all fun n => hyphenFamilies.all fun f =>
      !f.toList.isPrefixOf n.toList) = true := by
    decide +kernel
  rw [← not_or, ← List.mem_append]
  intro hn
  have hnot := List.all_eq_true.mp (List.all_eq_true.mp hall name hn) family hf
  rw [Bool.not_eq_true', ← Bool.not_eq_true, List.isPrefixOf_iff_prefix] at hnot
  exact hnot h

theorem isPrefixOf?_append (front rest : List Char) :
    front.isPrefixOf? (front ++ rest) = some rest := by
  induction front with
  | nil => rfl
  | cons c front ih =>
    change (if c == c then front.isPrefixOf? (front ++ rest) else none) = some rest
    rw [if_pos (beq_self_eq_true c), ih]

theorem unfold_of_capital {c : Char} {cs : List Char} (hf : family ∈ hyphenFamilies)
    (hname : name.toList = family.toList ++ c :: cs) (hc : c.isUpper = true) :
    unfold name = String.ofList (unfoldChars name.toList) := by
  have hcamel : camelNames.contains name = false := by
    rw [List.contains_eq_mem, decide_eq_false_iff_not]
    exact (not_mem_of_family hf ⟨c :: cs, hname.symm⟩).1
  have hhyphenated : isHyphenated name = true := by
    rw [isHyphenated, Bool.or_eq_true, List.any_eq_true]
    refine Or.inr ⟨family, hf, ?_⟩
    rw [inFamily, hname, isPrefixOf?_append]
    exact hc
  rw [AttributeName.unfold, hcamel, hhyphenated]
  rfl

theorem unfold_of_hyphen {cs : List Char} (hf : family ∈ hyphenFamilies)
    (hname : name.toList = family.toList ++ '-' :: cs) : unfold name = name := by
  have hlength : ∀ f ∈ hyphenFamilies, f.toList.length = 4 := by decide
  have hfamilies : hyphenFamilies.any (inFamily name.toList) = false := by
    rw [List.any_eq_false]
    intro f hmem hin
    unfold inFamily at hin
    split at hin
    · rename_i c ds hprefix
      -- both families are of one length, so what stands behind them is the hyphen
      have hjoin := hname.symm.trans (eq_append_of_isPrefixOf? hprefix)
      have hbehind := (List.append_inj hjoin ((hlength _ hf).trans (hlength f hmem).symm)).2
      rw [← (List.cons.inj hbehind).1] at hin
      contradiction
    · contradiction
  have hhyphenated : isHyphenated name = false := by
    rw [isHyphenated, hfamilies, Bool.or_false, List.contains_eq_mem, decide_eq_false_iff_not]
    exact (not_mem_of_family hf ⟨'-' :: cs, hname.symm⟩).2
  rw [AttributeName.unfold, hhyphenated, Bool.not_false, Bool.or_true, if_pos rfl]

/-- A name of a family is folded behind its first word. -/
theorem toList_fold_family (hf : family ∈ hyphenFamilies)
    (hname : name.toList = family.toList ++ '-' :: rest) :
    (fold name).toList = family.toList ++ foldChars ('-' :: rest) := by
  have hhyphen : ∀ f ∈ hyphenFamilies, '-' ∉ f.toList := by decide
  rw [toList_fold, hname, foldChars_append (hhyphen family hf)]

/-- A name of a family without capitals is restored exactly if its hyphens are kept. -/
theorem unfold_fold_of_family (hf : family ∈ hyphenFamilies)
    (hname : name.toList = family.toList ++ '-' :: rest)
    (hsmall : name.toList.any Char.isUpper = false) :
    unfold (fold name) = name ↔ KeepsHyphens rest := by
  have hfold := toList_fold_family hf hname
  by_cases hhead : ∃ c ∈ rest.head?, c.isLower = true
  · refine iff_of_true ?_ (Or.inl hhead)
    obtain ⟨c, hc, hlower⟩ := hhead
    obtain ⟨cs, rfl⟩ := List.head?_eq_some_iff.mp hc
    rw [foldChars_hyphen_lower hlower] at hfold
    rw [unfold_of_capital hf hfold (isUpper_toUpper hlower), toList_fold,
      unfoldChars_foldChars hsmall, String.ofList_toList]
  · have hnot : ∀ c ∈ rest.head?, c.isLower = false := fun c hc =>
      Bool.not_eq_true _ ▸ fun hlower => hhead ⟨c, hc, hlower⟩
    rw [foldChars_hyphen hnot] at hfold
    rw [unfold_of_hyphen hf hfold, KeepsHyphens, or_iff_right hhead, ← foldChars_eq_self_iff,
      ← String.toList_inj, hfold, hname, List.append_cancel_left_eq, List.cons.injEq]
    exact and_iff_right rfl

end AttributeName

/-! ## What is printed -/

namespace Literal

theorem toList_quoted (s : String) :
    (quoted s).toList = '\'' :: (s.toList.flatMap escape ++ ['\'']) := by
  rw [quoted, String.toList_ofList]
  rfl

theorem ne_quoted_of_isIdentifier {name : String} (h : isIdentifier name.toList = true)
    (s : String) : name ≠ quoted s := by
  rintro rfl
  rw [toList_quoted, isIdentifier, Bool.and_eq_true] at h
  exact absurd h.1 (by decide)

/-- Keys that are written alike are the same, bare or in quotes. -/
theorem key_injective : Function.Injective key := by
  intro s t h
  unfold key at h
  split at h <;> split at h
  · exact h
  · rename_i hs _
    exact absurd h (ne_quoted_of_isIdentifier hs t)
  · rename_i ht
    exact absurd h.symm (ne_quoted_of_isIdentifier ht s)
  · exact quoted_injective h

/-- Behind different keys the rest of an entry is the same. -/
theorem entry_eq_iff (style : KeyStyle) (a : String × AttrValue) (name : String) :
    entry style a = key name ++ ": " ++ value a.2 ↔ style.key a.1 = name := by
  have hkey : key (style.key a.1) = key name ↔ style.key a.1 = name := key_injective.eq_iff
  rw [← hkey]
  simp [entry, ← String.toList_inj]

end Literal

theorem Markup.entry_eq_iff (options : MarkupOptions) (a : String × AttrValue) (name : String) :
    entry options a = " " ++ name ++ "=\"" ++ escaped (value options a.2) ++ "\"" ↔
      AttributeName.unfold a.1 = name := by
  simp [entry, ← String.toList_inj]

namespace AttributeName

/-- A name of a family without capitals is printed as it was, in literals and in markup, exactly if
its hyphens are kept. -/
theorem family_printed_iff {family name : String} {rest : List Char}
    (hf : family ∈ hyphenFamilies) (hname : name.toList = family.toList ++ '-' :: rest)
    (hsmall : name.toList.any Char.isUpper = false) (v : AttrValue) (options : MarkupOptions) :
    (unfold (fold name) = name ↔ KeepsHyphens rest) ∧
    (Literal.entry .kebab (fold name, v) = Literal.key name ++ ": " ++ Literal.value v ↔
      KeepsHyphens rest) ∧
    (Markup.entry options (fold name, v) =
        " " ++ name ++ "=\"" ++ Markup.escaped (Markup.value options v) ++ "\"" ↔
      KeepsHyphens rest) := by
  have hrestored := unfold_fold_of_family hf hname hsmall
  refine ⟨hrestored, ?_, ?_⟩
  · rw [Literal.entry_eq_iff]
    exact hrestored
  · rw [Markup.entry_eq_iff]
    exact hrestored

/-- In `data-x--y` the second word begins with a small letter, so the third one may begin with a
hyphen. -/
theorem family_with_two_hyphens_printed :
    "data" ∈ hyphenFamilies ∧ "data-x--y".toList = "data".toList ++ '-' :: "x--y".toList ∧
      "data-x--y".toList.any Char.isUpper = false ∧ fold "data-x--y" = "dataX-Y" ∧
      unfold (fold "data-x--y") = "data-x--y" ∧
      Literal.entry .kebab (fold "data-x--y", .text "a") =
        Literal.key "data-x--y" ++ ": " ++ Literal.value (.text "a") := by
  have hf : "data" ∈ hyphenFamilies := by decide
  have hname : "data-x--y".toList = "data".toList ++ '-' :: "x--y".toList := by decide
  have hsmall : "data-x--y".toList.any Char.isUpper = false := by decide
  have hkeeps : KeepsHyphens "x--y".toList := Or.inl ⟨'x', rfl, rfl⟩
  obtain ⟨hrestored, hentry, -⟩ := family_printed_iff hf hname hsmall (.text "a") .standard
  exact ⟨hf, hname, hsmall, by decide +kernel, hrestored.mpr hkeeps, hentry.mpr hkeeps⟩

/-- A word that begins with a digit, and an empty one, hide the family of a name. The hyphens behind
them are lost. -/
theorem hyphens_of_family_lost :
    ("data-".toList <+: "data-2x-foo".toList ∧ "data-2x-foo".toList.any Char.isUpper = false ∧
      unfold (fold "data-2x-foo") = "data-2xFoo") ∧
    ("data-".toList <+: "data--x".toList ∧ "data--x".toList.any Char.isUpper = false ∧
      unfold (fold "data--x") = "data-X") ∧
    (Icon.ofSvg "<svg><path data-2x-foo=\"1\"/></svg>").toOption.map (fun icon =>
        (Literal.icon .kebab 0 icon, Markup.forest .standard icon)) =
      some ("['path', \x7b 'data-2xFoo': 1 \x7d]", "<path data-2xFoo=\"1\"/>") := by
  refine ⟨⟨by decide, by decide, by decide +kernel⟩, ⟨by decide, by decide, by decide +kernel⟩, ?_⟩
  decide +kernel

end AttributeName

namespace Node

mutual

theorem mem_allAttributes_of_subtrees (n m : Node) (hm : m ∈ n.subtrees) :
    ∀ a ∈ m.attributes.entries, a ∈ n.allAttributes := by
  match n with
  | leaf e as =>
    rw [List.mem_singleton.mp hm]
    exact fun _ ha => ha
  | branch e as cs =>
    intro a ha
    rw [allAttributes, List.mem_append]
    rcases List.mem_cons.mp hm with rfl | hm
    · exact Or.inl ha
    · exact Or.inr (mem_forestAttributes_of_subtrees cs m hm a ha)

theorem mem_forestAttributes_of_subtrees (ns : List Node) (m : Node)
    (hm : m ∈ forestSubtrees ns) : ∀ a ∈ m.attributes.entries, a ∈ forestAttributes ns := by
  match ns with
  | [] => contradiction
  | n :: ns =>
    intro a ha
    rw [forestAttributes, List.mem_append]
    rcases List.mem_append.mp hm with hm | hm
    · exact Or.inl (mem_allAttributes_of_subtrees n m hm a ha)
    · exact Or.inr (mem_forestAttributes_of_subtrees ns m hm a ha)

end

end Node

namespace Icon

open AttributeName

variable {svg : String} {icon : Icon} {keepColors : Bool}

/-- The keys of a recoloured icon are folded names, those of its paint as well. -/
theorem fold_key_of_mem_normalized (h : Icon.ofSvg svg = .ok icon) {a : String × AttrValue}
    (ha : a ∈ (icon.normalized keepColors).attributes) : fold a.1 = a.1 :=
  (isKey_of_mem_normalized h ha).fold_self

/-- Folding undoes the spelling of folded names, so that different ones are spelled differently, and
with them the keys of each node of a drawing, in literals and in markup. -/
theorem spelled_keys_distinct :
    (∀ name, fold (unfold (fold name)) = fold name ∧ fold (fold name) = fold name) ∧
    (∀ s t, fold s = s → fold t = t → unfold s = unfold t → s = t) ∧
    ∀ svg icon keepColors, Icon.ofSvg svg = .ok icon → ∀ n ∈ (icon.normalized keepColors).nodes,
      (n.attributes.keys.map unfold).Nodup ∧
      (n.attributes.keys.map fun key => Literal.key (KeyStyle.kebab.key key)).Nodup := by
  refine ⟨fun name => ⟨fold_unfold (fold_fold name), fold_fold name⟩,
    fun s t => eq_of_unfold_eq, fun svg icon keepColors h n hn => ?_⟩
  have hfold : ∀ key ∈ n.attributes.keys, fold key = key := by
    intro key hkey
    obtain ⟨a, ha, rfl⟩ := List.mem_map.mp hkey
    exact fold_key_of_mem_normalized h (Node.mem_forestAttributes_of_subtrees _ n hn a ha)
  have hdistinct : ∀ s ∈ n.attributes.keys, ∀ t ∈ n.attributes.keys, unfold s = unfold t → s = t :=
    fun s hs t ht => eq_of_unfold_eq (hfold s hs) (hfold t ht)
  refine ⟨n.attributes.nodup.map_on hdistinct, n.attributes.nodup.map_on fun s hs t ht hkey => ?_⟩
  exact hdistinct s hs t ht (Literal.key_injective hkey)

/-- A stroked path with names that differ in one capital or one hyphen. -/
def nearlyAlike : String :=
  "<svg><path data-x=\"1\" data-X=\"2\" fill-rule=\"a\" fill-Rule=\"b\" stroke=\"red\"/></svg>"

theorem keys_of_nearlyAlike_distinct :
    fold "stroke-width" = "strokeWidth" ∧
    ∃ icon, Icon.ofSvg nearlyAlike = .ok icon ∧
      (icon.normalized false).nodes.map (fun n => n.attributes.keys.map unfold) =
        [["data-x", "data-X", "fill-rule", "fill-Rule", "fill", "stroke", "stroke-width",
          "stroke-linecap", "stroke-linejoin"]] ∧
      ∀ n ∈ (icon.normalized false).nodes, (n.attributes.keys.map unfold).Nodup := by
  obtain ⟨-, hinjective, hdistinct⟩ := spelled_keys_distinct
  have hfold : fold (fold "stroke-width") = fold "stroke-width" ∧
      fold "strokeWidth" = "strokeWidth" ∧
      unfold (fold "stroke-width") = unfold "strokeWidth" := by
    decide +kernel
  refine ⟨hinjective _ _ hfold.1 hfold.2.1 hfold.2.2, ?_⟩
  have hcheck : (Icon.ofSvg nearlyAlike).toOption.map (fun icon =>
      (icon.normalized false).nodes.map (fun n => n.attributes.keys.map unfold)) =
        some [["data-x", "data-X", "fill-rule", "fill-Rule", "fill", "stroke", "stroke-width",
          "stroke-linecap", "stroke-linejoin"]] := by
    decide +kernel
  obtain ⟨icon, hread, hkeys⟩ := exists_of_toOption hcheck
  exact ⟨icon, hread, hkeys, fun n hn => (hdistinct _ icon false hread n hn).1⟩

end Icon

end IconCompiler
