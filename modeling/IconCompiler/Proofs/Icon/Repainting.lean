import IconCompiler.Proofs.Icon.Attributes
import IconCompiler.Proofs.Icon.Shape

/-!
What repainting makes of the attributes of a node, entry by entry and in order. The entries that are
no paint stay where they are, the paint that the role asks for comes behind them, and the ends of a
stroke are rounded where they stand. Repainting again finds the same role, and moves nothing but the
ends that it had added the first time.
-/

namespace IconCompiler

namespace Attributes

/-- The keys whose entries repainting takes away. -/
def paintKeys : List String := ["fill", "stroke", "strokeWidth"]

/-- The keys of how the ends and corners of a stroke are drawn. -/
def endKeys : List String := ["strokeLinecap", "strokeLinejoin"]

/-- The entries that are no paint, in order. -/
def plain (as : Attributes) : List (String × AttrValue) :=
  as.entries.filter fun e => e.1 ∉ paintKeys

/-- An entry as it stands in a stroked node. -/
def rounded (e : String × AttrValue) : String × AttrValue :=
  if e.1 ∈ endKeys then (e.1, .text "round") else e

/-- The width of a stroke, a parameter if the node has none. -/
def strokeWidth (as : Attributes) : AttrValue :=
  (as.get? "strokeWidth").getD (.parameter .strokeWidth)

/-- The paint of a stroked node. -/
def strokePaint (width : AttrValue) : List (String × AttrValue) :=
  [("fill", .text "none"), ("stroke", .parameter .color), ("strokeWidth", width)]

/-- The rounded ends that a node has to be given. -/
def missingEnds (as : Attributes) : List (String × AttrValue) :=
  (endKeys.filter (· ∉ as.keys)).map (·, .text "round")

variable {as : Attributes}

theorem not_mem_paintKeys : ∀ key ∈ endKeys, key ∉ paintKeys := by decide

theorem entries_unpainted (as : Attributes) : as.unpainted.entries = as.plain := by
  have hentries : as.unpainted.entries = ((as.entries.filter (·.1 ≠ "fill")).filter
      (·.1 ≠ "stroke")).filter (·.1 ≠ "strokeWidth") := rfl
  rw [hentries, List.filter_filter, List.filter_filter, plain]
  apply List.filter_congr
  intro e _
  simp only [paintKeys, List.mem_cons, List.not_mem_nil, or_false, not_or, Bool.decide_and]
  ac_rfl

theorem not_mem_keys_unpainted {key : String} (h : key ∈ paintKeys) : key ∉ as.unpainted.keys := by
  rw [Table.keys, entries_unpainted]
  intro hmem
  obtain ⟨e, he, rfl⟩ := List.mem_map.mp hmem
  exact of_decide_eq_true (List.mem_filter.mp he).2 h

theorem mem_keys_unpainted_iff {key : String} (h : key ∉ paintKeys) :
    key ∈ as.unpainted.keys ↔ key ∈ as.keys := by
  rw [Table.keys, Table.keys, entries_unpainted, plain, List.mem_map, List.mem_map]
  constructor
  · rintro ⟨e, he, rfl⟩
    exact ⟨e, (List.mem_filter.mp he).1, rfl⟩
  · rintro ⟨e, he, rfl⟩
    exact ⟨e, List.mem_filter.mpr ⟨he, decide_eq_true h⟩, rfl⟩

/-! ## Entries in order -/

theorem entries_repainted_of_fill (h : as.paintRole = .fill) :
    as.repainted.entries = as.plain ++ [("fill", .parameter .color)] := by
  rw [repainted, h, ← entries_unpainted]
  exact Table.entries_put_of_not_mem _ (not_mem_keys_unpainted (by decide))

theorem entries_repainted_of_neutral (h : as.paintRole = .neutral) :
    as.repainted.entries = as.plain := by
  rw [repainted, h, ← entries_unpainted]

/-- The ends of a stroke are rounded in place, and those that are missing come last. -/
theorem entries_put_ends (t : Attributes) :
    ((t.put "strokeLinecap" (.text "round")).put "strokeLinejoin" (.text "round")).entries =
      t.entries.map rounded ++ t.missingEnds := by
  have hjoin : "strokeLinejoin" ∈ (t.put "strokeLinecap" (.text "round")).keys ↔
      "strokeLinejoin" ∈ t.keys := by
    rw [Table.mem_keys_put]
    exact or_iff_left (by decide)
  have hrounded : ∀ e : String × AttrValue, rounded e =
      if (if e.1 = "strokeLinecap" then ("strokeLinecap", AttrValue.text "round") else e).1 =
        "strokeLinejoin" then ("strokeLinejoin", .text "round")
      else if e.1 = "strokeLinecap" then ("strokeLinecap", .text "round") else e := by
    intro e
    by_cases hcap : e.1 = "strokeLinecap"
    · simp [rounded, endKeys, hcap]
    · by_cases he : e.1 = "strokeLinejoin" <;> simp [rounded, endKeys, hcap, he]
  have hmap : (t.entries.map fun e => if e.1 = "strokeLinecap" then
      ("strokeLinecap", AttrValue.text "round") else e).map (fun e => if e.1 = "strokeLinejoin" then
        ("strokeLinejoin", .text "round") else e) = t.entries.map rounded := by
    rw [List.map_map]
    apply List.map_congr_left
    intro e _
    exact (hrounded e).symm
  rw [Table.entries_put, Table.entries_put, List.map_append, hmap, List.append_assoc]
  simp only [hjoin, missingEnds, endKeys, List.filter_cons, List.filter_nil]
  -- which of the two ends are there decides what comes last
  by_cases hc : "strokeLinecap" ∈ t.keys <;> by_cases hj : "strokeLinejoin" ∈ t.keys <;>
    simp [hc, hj]

/-- A stroked node with its paint, before its ends are rounded. -/
def stroked (as : Attributes) : Attributes :=
  ((as.unpainted.put "fill" (.text "none")).put "stroke" (.parameter .color)).put "strokeWidth"
    as.strokeWidth

theorem entries_stroked (as : Attributes) :
    as.stroked.entries = as.plain ++ strokePaint as.strokeWidth := by
  rw [stroked, Table.entries_put_of_not_mem, Table.entries_put_of_not_mem,
    Table.entries_put_of_not_mem, entries_unpainted, List.append_assoc, List.append_assoc]
  · rfl
  · exact not_mem_keys_unpainted (by decide)
  · rw [Table.mem_keys_put, not_or]
    exact ⟨not_mem_keys_unpainted (by decide), by decide⟩
  · rw [Table.mem_keys_put, Table.mem_keys_put, not_or, not_or]
    exact ⟨⟨not_mem_keys_unpainted (by decide), by decide⟩, by decide⟩

theorem mem_keys_stroked_iff {key : String} (h : key ∉ paintKeys) :
    key ∈ as.stroked.keys ↔ key ∈ as.keys := by
  have hne : key ≠ "fill" ∧ key ≠ "stroke" ∧ key ≠ "strokeWidth" := by
    simpa [paintKeys] using h
  rw [stroked, Table.mem_keys_put, Table.mem_keys_put, Table.mem_keys_put,
    mem_keys_unpainted_iff h]
  simp only [hne, or_false]

theorem missingEnds_stroked (as : Attributes) : as.stroked.missingEnds = as.missingEnds := by
  rw [missingEnds, missingEnds]
  congr 1
  apply List.filter_congr
  intro key hkey
  apply decide_eq_decide.mpr
  exact not_congr (mem_keys_stroked_iff (not_mem_paintKeys key hkey))

theorem entries_repainted_of_stroke (h : as.paintRole = .stroke) :
    as.repainted.entries =
      as.plain.map rounded ++ strokePaint as.strokeWidth ++ as.missingEnds := by
  have hstroked : as.repainted =
      (as.stroked.put "strokeLinecap" (.text "round")).put "strokeLinejoin" (.text "round") := by
    rw [repainted, h]
    rfl
  rw [hstroked, entries_put_ends, entries_stroked, missingEnds_stroked, List.map_append]
  rfl

/-! ## The role again -/

theorem paintRole_eq_fill {v : AttrValue} (h : ("fill", v) ∈ as.entries)
    (hv : v.isNone = false) : as.paintRole = .fill := by
  rw [paintRole, (Table.get?_eq_some_iff as _ _).mpr h, Option.any_some, hv]
  rfl

theorem paintRole_eq_stroke {v : AttrValue} (h : ("fill", v) ∈ as.entries)
    (hv : v.isNone = true) (hstroke : "stroke" ∈ as.keys) : as.paintRole = .stroke := by
  rw [paintRole, (Table.get?_eq_some_iff as _ _).mpr h, Option.any_some, hv,
    (Table.has_iff as _).mpr hstroke]
  rfl

theorem paintRole_eq_neutral (hfill : "fill" ∉ as.keys) (hstroke : "stroke" ∉ as.keys) :
    as.paintRole = .neutral := by
  have hnone : as.get? "fill" = none := by
    rw [← Option.not_isSome_iff_eq_none, Table.get?_isSome_iff]
    exact hfill
  rw [paintRole, hnone, Option.any_none, if_neg Bool.false_ne_true,
    if_neg (mt (Table.has_iff as _).mp hstroke)]

/-- Repainted attributes have the role of those that they were made from. -/
theorem paintRole_repainted (as : Attributes) : as.repainted.paintRole = as.paintRole := by
  cases h : as.paintRole with
  | fill =>
    apply paintRole_eq_fill (v := .parameter .color)
    · rw [entries_repainted_of_fill h]
      exact List.mem_append_right _ List.mem_cons_self
    · rfl
  | stroke =>
    have hentries := entries_repainted_of_stroke h
    apply paintRole_eq_stroke (v := .text "none")
    · rw [hentries]
      simp [strokePaint]
    · rfl
    · rw [Table.keys, hentries]
      simp [strokePaint]
  | neutral =>
    have hkeys : as.repainted.keys = as.unpainted.keys := by
      rw [Table.keys, Table.keys, entries_repainted_of_neutral h, entries_unpainted]
    apply paintRole_eq_neutral
    · rw [hkeys]
      exact not_mem_keys_unpainted (by decide)
    · rw [hkeys]
      exact not_mem_keys_unpainted (by decide)

/-! ## Repainting again -/

theorem rounded_rounded (e : String × AttrValue) : rounded (rounded e) = rounded e := by
  by_cases h : e.1 ∈ endKeys <;> simp [rounded, h]

theorem fst_rounded (e : String × AttrValue) : (rounded e).1 = e.1 := by
  unfold rounded
  split <;> rfl

theorem map_rounded_missingEnds (as : Attributes) :
    as.missingEnds.map rounded = as.missingEnds := by
  rw [missingEnds, List.map_map]
  apply List.map_congr_left
  intro key hkey
  exact if_pos (List.mem_filter.mp hkey).1

/-- The entries that are no paint once a stroked node is repainted. -/
theorem plain_repainted (h : as.paintRole = .stroke) :
    as.repainted.plain = as.plain.map rounded ++ as.missingEnds := by
  have hplain : (as.plain.map rounded).filter (fun e => e.1 ∉ paintKeys) =
      as.plain.map rounded := by
    apply List.filter_eq_self.mpr
    intro e he
    obtain ⟨d, hd, rfl⟩ := List.mem_map.mp he
    rw [fst_rounded]
    exact (List.mem_filter.mp hd).2
  have hpaint : (strokePaint as.strokeWidth).filter (fun e => e.1 ∉ paintKeys) = [] := rfl
  have hmissing : as.missingEnds.filter (fun e => e.1 ∉ paintKeys) = as.missingEnds := by
    apply List.filter_eq_self.mpr
    intro e he
    obtain ⟨key, hkey, rfl⟩ := List.mem_map.mp he
    exact decide_eq_true (not_mem_paintKeys key (List.mem_filter.mp hkey).1)
  rw [plain, entries_repainted_of_stroke h, List.filter_append, List.filter_append, hplain, hpaint,
    hmissing, List.append_nil]

theorem strokeWidth_repainted (h : as.paintRole = .stroke) :
    as.repainted.strokeWidth = as.strokeWidth := by
  have hwidth : as.repainted.get? "strokeWidth" = some as.strokeWidth := by
    rw [Table.get?_eq_some_iff, entries_repainted_of_stroke h]
    simp [strokePaint]
  rw [strokeWidth, hwidth, Option.getD_some]

theorem missingEnds_repainted (h : as.paintRole = .stroke) : as.repainted.missingEnds = [] := by
  rw [missingEnds, List.map_eq_nil_iff, List.filter_eq_nil_iff]
  intro key hkey hmissing
  apply of_decide_eq_true hmissing
  rw [Table.keys, entries_repainted_of_stroke h, List.map_append, List.mem_append]
  by_cases hmem : key ∈ as.keys
  · left
    rw [List.map_append, List.mem_append, List.map_map]
    left
    rw [← mem_keys_unpainted_iff (not_mem_paintKeys key hkey), Table.keys,
      entries_unpainted] at hmem
    simpa [Function.comp_def, fst_rounded] using hmem
  · right
    rw [missingEnds, List.map_map]
    exact List.mem_map.mpr ⟨key, List.mem_filter.mpr ⟨hkey, decide_eq_true hmem⟩, rfl⟩

/-- Repainted a second time, the paint of a stroke comes behind the ends that were added. -/
theorem entries_repainted_repainted (h : as.paintRole = .stroke) :
    as.repainted.repainted.entries =
      as.plain.map rounded ++ as.missingEnds ++ strokePaint as.strokeWidth := by
  have hrole : as.repainted.paintRole = .stroke := (paintRole_repainted as).trans h
  have hrounded : rounded ∘ rounded = rounded := funext rounded_rounded
  rw [entries_repainted_of_stroke hrole, plain_repainted h, strokeWidth_repainted h,
    missingEnds_repainted h, List.append_nil, List.map_append, List.map_map, hrounded,
    map_rounded_missingEnds]

theorem repainted_repainted_of_ne (h : as.paintRole ≠ .stroke) :
    as.repainted.repainted = as.repainted := by
  have hplain : as.plain.filter (fun e => e.1 ∉ paintKeys) = as.plain := by
    rw [plain, List.filter_filter]
    simp only [Bool.and_self]
  have hrole := paintRole_repainted as
  apply Table.ext_entries
  cases hcase : as.paintRole with
  | fill =>
    have hpaint : [("fill", AttrValue.parameter .color)].filter (fun e => e.1 ∉ paintKeys) = [] :=
      rfl
    rw [hcase] at hrole
    rw [entries_repainted_of_fill hrole, plain, entries_repainted_of_fill hcase, List.filter_append,
      hplain, hpaint, List.append_nil]
  | stroke => exact absurd hcase h
  | neutral =>
    rw [hcase] at hrole
    rw [entries_repainted_of_neutral hrole, plain, entries_repainted_of_neutral hcase, hplain]

theorem repainted_repainted_perm (as : Attributes) :
    as.repainted.repainted.entries.Perm as.repainted.entries := by
  by_cases h : as.paintRole = .stroke
  · rw [entries_repainted_repainted h, entries_repainted_of_stroke h, List.append_assoc,
      List.append_assoc]
    apply List.Perm.append_left
    exact List.perm_append_comm
  · rw [repainted_repainted_of_ne h]

theorem repainted_settled (as : Attributes) :
    as.repainted.repainted.repainted = as.repainted.repainted := by
  by_cases h : as.paintRole = .stroke
  · have hrole : as.repainted.paintRole = .stroke := (paintRole_repainted as).trans h
    have hrounded : rounded ∘ rounded = rounded := funext rounded_rounded
    apply Table.ext_entries
    rw [entries_repainted_repainted hrole, plain_repainted h, strokeWidth_repainted h,
      missingEnds_repainted h, entries_repainted_repainted h, List.append_nil, List.map_append,
      List.map_map, hrounded, map_rounded_missingEnds]
  · rw [repainted_repainted_of_ne h, repainted_repainted_of_ne h]

/-! ## Colours of the drawing -/

/-- The entries that tell no colour of the drawing, in order. -/
def colorless (as : Attributes) : List (String × AttrValue) :=
  as.entries.filter fun e => e.1 ≠ "fill" ∧ e.1 ≠ "stroke"

/-- Nothing but the role and the entries without colours has a say in what is painted. -/
theorem repainted_eq_of_colorless {bs : Attributes} (h : as.colorless = bs.colorless)
    (hrole : as.paintRole = bs.paintRole) : as.repainted = bs.repainted := by
  have hentries : ∀ cs : Attributes,
      ((cs.remove "fill").remove "stroke").entries = cs.colorless := by
    intro cs
    have hremoved : ((cs.remove "fill").remove "stroke").entries =
        (cs.entries.filter (·.1 ≠ "fill")).filter (·.1 ≠ "stroke") := rfl
    rw [hremoved, List.filter_filter, colorless]
    apply List.filter_congr
    intro e _
    rw [Bool.decide_and, Bool.and_comm]
  have hwidth : ∀ cs : Attributes,
      cs.get? "strokeWidth" = ((cs.remove "fill").remove "stroke").get? "strokeWidth" := by
    intro cs
    rw [Table.get?_remove, Table.get?_remove, if_neg (by decide), if_neg (by decide)]
  have hrest : (as.remove "fill").remove "stroke" = (bs.remove "fill").remove "stroke" := by
    apply Table.ext_entries
    rw [hentries, hentries, h]
  unfold repainted unpainted
  rw [hrole, hwidth as, hwidth bs, hrest]

end Attributes

namespace Icon

open Attributes

/-- Repainting keeps the entries that are no paint, in order, and puts the paint of the role behind
them. All of it is done at each node for itself, and with its colours kept an icon stays as it
is. -/
theorem repainted_in_order (as : Attributes) (icon : Icon) (keepColors : Bool) :
    (as.normalized false).entries = (match as.paintRole with
      | .fill => as.plain ++ [("fill", .parameter .color)]
      | .stroke => as.plain.map rounded ++ strokePaint as.strokeWidth ++ as.missingEnds
      | .neutral => as.plain) ∧
    as.normalized true = as ∧
    icon.Alike (fun bs cs => cs = bs.normalized keepColors) (icon.normalized keepColors) ∧
    icon.normalized true = icon := by
  refine ⟨?_, rfl, ?_, icon.normalized_true⟩
  · cases h : as.paintRole with
    | fill => exact entries_repainted_of_fill h
    | stroke => exact entries_repainted_of_stroke h
    | neutral => exact entries_repainted_of_neutral h
  · rw [normalized_eq]
    apply alike_mapAttributes
    exact fun _ => rfl

theorem normalized_normalized (keepColors : Bool) (as : Attributes) :
    ((as.normalized keepColors).normalized keepColors).entries.Perm
        (as.normalized keepColors).entries ∧
      ((as.normalized keepColors).normalized keepColors).paintRole = as.paintRole ∧
      ((as.normalized keepColors).normalized keepColors).normalized keepColors =
        (as.normalized keepColors).normalized keepColors := by
  cases keepColors with
  | true => exact ⟨List.Perm.refl _, rfl, rfl⟩
  | false =>
    refine ⟨repainted_repainted_perm as, ?_, repainted_settled as⟩
    exact (paintRole_repainted _).trans (paintRole_repainted as)

/-- An icon that is normalized again keeps the attributes and the role of every node, in an order
that may be another one, and from then on stays as it is. -/
theorem normalized_settles (icon : Icon) (keepColors : Bool) :
    (icon.normalized keepColors).Alike (fun as bs => bs.entries.Perm as.entries)
        ((icon.normalized keepColors).normalized keepColors) ∧
      icon.Alike (fun as bs => bs.paintRole = as.paintRole)
        ((icon.normalized keepColors).normalized keepColors) ∧
      ((icon.normalized keepColors).normalized keepColors).normalized keepColors =
        (icon.normalized keepColors).normalized keepColors := by
  have hagain := normalized_normalized keepColors
  simp only [normalized_eq, mapAttributes_mapAttributes]
  refine ⟨?_, ?_, ?_⟩
  · apply alike_mapAttributes_mapAttributes
    exact fun as => (hagain as).1
  · apply alike_mapAttributes
    exact fun as => (hagain as).2.1
  · congr 1
    funext as
    exact (hagain as).2.2

/-- The order of a stroke without ends is another one the second time. -/
example :
    let as : Attributes := ⟨[("stroke", .text "red")], by decide⟩
    as.repainted.keys = ["fill", "stroke", "strokeWidth", "strokeLinecap", "strokeLinejoin"] ∧
      as.repainted.repainted.keys =
        ["strokeLinecap", "strokeLinejoin", "fill", "stroke", "strokeWidth"] := by
  decide

end Icon

end IconCompiler
