import IconCompiler.Icon.Markup
import IconCompiler.Proofs.Xml.Readers

/-!
Scanning what was printed. Elements are printed as a name with attributes in double quotes; scanning
the text gives back the tokens that they consist of, or an error if some name cannot be split or
some value holds a character that XML has no place for.
-/

namespace IconCompiler.Xml

/-- Elements as they are written, before any name in them is resolved. -/
inductive Printed where
  | empty (name : String) (attributes : List (String × String))
  | full (name : String) (attributes : List (String × String)) (children : List Printed)

/-- A value between double quotes. -/
def escapedChars (cs : List Char) : List Char := cs.flatMap Markup.escape

def attrText (a : String × String) : List Char :=
  ' ' :: (a.1.toList ++ '=' :: '"' :: (escapedChars a.2.toList ++ ['"']))

def attrsText (as : List (String × String)) : List Char := as.flatMap attrText

namespace Printed

mutual

def text : Printed → List Char
  | empty name as => '<' :: (name.toList ++ (attrsText as ++ ['/', '>']))
  | full name as cs =>
    '<' :: (name.toList ++ (attrsText as ++
      '>' :: (forestText cs ++ '<' :: '/' :: (name.toList ++ ['>']))))

def forestText : List Printed → List Char
  | [] => []
  | p :: ps => p.text ++ forestText ps

end

mutual

/-- The number of tags. -/
def tags : Printed → Nat
  | empty _ _ => 1
  | full _ _ cs => forestTags cs + 2

def forestTags : List Printed → Nat
  | [] => 0
  | p :: ps => p.tags + forestTags ps

end

end Printed

/-- A token without its place. -/
inductive Mark where
  | start (name : QName)
  | attr (name : QName) (value : List Char)
  | stop (isEmpty : Bool)
  | close (name : QName)
  | other

def Token.mark : Token → Mark
  | .tagStart name _ => .start name
  | .attr name _ value => .attr name value.rest
  | .tagEnd isEmpty => .stop isEmpty
  | .close name _ => .close name
  | .entity _ _ | .text _ => .other

/-- The parts of a written name. -/
def qnameOf (name : String) : QName := (Cursor.splitName? name.toList).getD ⟨"", name⟩

theorem qnameOf_of_splitName? {name : String} {n : QName}
    (h : Cursor.splitName? name.toList = some n) : qnameOf name = n := by
  rw [qnameOf, h, Option.getD_some]

def attrsMarks (as : List (String × String)) : List Mark :=
  as.map fun a => .attr (qnameOf a.1) (escapedChars a.2.toList)

namespace Printed

mutual

def marks : Printed → List Mark
  | empty name as => .start ⟨"", name⟩ :: (attrsMarks as ++ [.stop true])
  | full name as cs =>
    .start ⟨"", name⟩ :: (attrsMarks as ++ .stop false :: (forestMarks cs ++ [.close ⟨"", name⟩]))

def forestMarks : List Printed → List Mark
  | [] => []
  | p :: ps => p.marks ++ forestMarks ps

end

end Printed

/-- A name whose characters may stand in names, wherever they stand. -/
def IsNameText (name : String) : Prop := ∀ c ∈ name.toList, isNameChar c = true

/-- An attribute that can be scanned. -/
structure Scannable (a : String × String) : Prop where
  name : (Cursor.splitName? a.1.toList).isSome = true
  value : ∀ c ∈ a.2.toList, isXmlChar c = true

/-- A name without a colon. -/
structure IsTag (name : String) : Prop where
  nameText : IsNameText name
  split : Cursor.splitName? name.toList = some ⟨"", name⟩

/-! ## Scans -/

namespace Scan

variable {α β : Type}

theorem ok_bind (ts : List Token) (a : α) (f : α → Scan β) :
    (⟨ts, .ok a⟩ : Scan α) >>= f = ⟨ts ++ (f a).tokens, (f a).result⟩ := rfl

theorem error_bind (ts : List Token) (e : Error) (f : α → Scan β) :
    (⟨ts, .error e⟩ : Scan α) >>= f = ⟨ts, .error e⟩ := rfl

theorem lift_ok_bind (a : α) (f : α → Scan β) :
    (liftM (Except.ok a : Except Error α) : Scan α) >>= f = f a := rfl

theorem lift_error_bind (e : Error) (f : α → Scan β) :
    (liftM (Except.error e : Except Error α) : Scan α) >>= f = ⟨[], .error e⟩ := rfl

theorem emit_bind (t : Token) (f : Unit → Scan β) :
    Scan.emit t >>= f = ⟨t :: (f ()).tokens, (f ()).result⟩ := rfl

theorem pure_bind (a : α) (f : α → Scan β) : (pure a : Scan α) >>= f = f a := rfl

end Scan

/-! ## Values -/

theorem mem_escapedChars_special {cs : List Char} {c : Char} (h : c ∈ escapedChars cs) :
    c ≠ '"' ∧ c ≠ '<' := by
  have hstandard : ∀ s ∈ ["&amp;", "&lt;", "&gt;", "&quot;"],
      s.toList.contains '"' = false ∧ s.toList.contains '<' = false := by decide
  have hne : ∀ s ∈ ["&amp;", "&lt;", "&gt;", "&quot;"], c ∈ s.toList → c ≠ '"' ∧ c ≠ '<' := by
    intro s hs hc
    have hfree := hstandard s hs
    simp only [List.contains_eq_mem, decide_eq_false_iff_not] at hfree
    exact ⟨ne_of_mem_of_not_mem hc hfree.1, ne_of_mem_of_not_mem hc hfree.2⟩
  obtain ⟨d, -, hd⟩ := List.mem_flatMap.mp h
  unfold Markup.escape at hd
  split at hd
  · exact hne _ (by simp) hd
  · exact hne _ (by simp) hd
  · exact hne _ (by simp) hd
  · exact hne _ (by simp) hd
  · rename_i h1 h2 h3 h4
    rw [List.mem_singleton.mp hd]
    exact ⟨h4, h2⟩

theorem forall_isXmlChar_escapedChars {cs : List Char} :
    (∀ c ∈ escapedChars cs, isXmlChar c = true) ↔ ∀ c ∈ cs, isXmlChar c = true := by
  have hone : ∀ d, (∀ c ∈ Markup.escape d, isXmlChar c = true) ↔ isXmlChar d = true := by
    intro d
    unfold Markup.escape
    split <;> simp [isXmlChar]
  simp only [escapedChars, List.mem_flatMap]
  constructor
  · intro h d hd
    exact (hone d).mp fun c hc => h c ⟨d, hd, hc⟩
  · rintro h c ⟨d, hd, hc⟩
    exact (hone d).mpr (h d hd) c hc

/-! ## Attributes -/

theorem attrText_append (a : String × String) (rest : List Char) :
    attrText a ++ rest =
      ' ' :: (a.1.toList ++ '=' :: '"' :: (escapedChars a.2.toList ++ '"' :: rest)) := by
  simp [attrText]

namespace Cursor

theorem ne_of_isNameChar {c : Char} (h : isNameChar c = true) :
    isSpace c = false ∧ c ≠ '/' ∧ c ≠ '>' ∧ c ≠ '"' := by
  refine ⟨?_, ?_, ?_, ?_⟩
  · cases hs : isSpace c with
    | false => rfl
    | true =>
      simp only [isSpace, Bool.or_eq_true, beq_iff_eq] at hs
      rcases hs with ((rfl | rfl) | rfl) | rfl <;> contradiction
  all_goals
    rintro rfl
    contradiction

/-- What comes of an attribute after the spaces in front of it. -/
def attrRest (fuel : Nat) (here : Cursor) : Scan (TagEnd × Cursor) := do
  let (name, c) ← here.expectQName
  let c ← c.expectEquals
  let (quote, c) ← c.expectQuote
  let (value, c) ← c.takeValue quote
  Scan.emit (.attr name here.position value)
  tagRest fuel c

theorem tagRest_space {fuel : Nat} {c : Cursor} {name rest : List Char}
    (hn : ∀ y ∈ name, isNameChar y = true) (h : c.rest = ' ' :: (name ++ '=' :: rest)) :
    ∃ here : Cursor, here.rest = name ++ '=' :: rest ∧
      tagRest (fuel + 1) c = attrRest fuel here := by
  -- neither a name nor an equals sign can be taken for the end of the tag
  obtain ⟨y, ys, hys, hspace, hslash, hend⟩ : ∃ y ys, name ++ '=' :: rest = y :: ys ∧
      isSpace y = false ∧ y ≠ '/' ∧ y ≠ '>' := by
    cases name with
    | nil => exact ⟨'=', rest, rfl, by decide, by decide, by decide⟩
    | cons y ys =>
      obtain ⟨h1, h2, h3, -⟩ := ne_of_isNameChar (hn y List.mem_cons_self)
      exact ⟨y, ys ++ '=' :: rest, rfl, h1, h2, h3⟩
  have hhere : c.spaces.rest = y :: ys := by
    rw [rest_spaces, h, List.dropWhile_cons, if_pos (by decide), hys, List.dropWhile_cons,
      hspace]
    rfl
  have hempty : c.rest.isEmpty = false := by rw [h]; rfl
  have hspaced : (c.rest.head?.any isSpace) = true := by rw [h]; rfl
  refine ⟨c.spaces, hhere.trans hys.symm, ?_⟩
  rw [tagRest]
  simp only [hempty, hspaced, current_cons hhere, hslash, hend, Bool.false_eq_true, if_false,
    if_true, Scan.lift_ok_bind, Scan.pure_bind]
  rfl

theorem tagRest_attr {fuel : Nat} {c : Cursor} {a : String × String} {rest : List Char}
    (hn : IsNameText a.1) (ha : Scannable a) (h : c.rest = attrText a ++ rest) :
    ∃ t c', c'.rest = rest ∧ Token.mark t = .attr (qnameOf a.1) (escapedChars a.2.toList) ∧
      tagRest (fuel + 1) c = ⟨t :: (tagRest fuel c').tokens, (tagRest fuel c').result⟩ := by
  obtain ⟨n, hsplit⟩ := Option.isSome_iff_exists.mp ha.name
  have hname := qnameOf_of_splitName? hsplit
  rw [attrText_append] at h
  obtain ⟨here, hhere, htag⟩ := tagRest_space hn h
  obtain ⟨c₁, h₁, e₁⟩ := expectQName_of_some hhere hn (by decide) hsplit
  obtain ⟨c₂, h₂, e₂⟩ := expectEquals_cons h₁ (by decide)
  obtain ⟨c₃, h₃, e₃⟩ := expectQuote_cons h₂
  obtain ⟨v, c₄, hv, h₄, e₄⟩ := takeValue_of_xmlChars h₃
    (fun hm => (mem_escapedChars_special hm).1 rfl) (fun hm => (mem_escapedChars_special hm).2 rfl)
    (forall_isXmlChar_escapedChars.mpr ha.value)
  refine ⟨.attr n here.position v, c₄, h₄, ?_, ?_⟩
  · rw [Token.mark, hname, hv]
  · rw [htag, attrRest]
    simp only [e₁, e₂, e₃, e₄, Scan.lift_ok_bind, Scan.emit_bind]

theorem tagRest_attr_error {fuel : Nat} {c : Cursor} {a : String × String} {rest : List Char}
    (hn : IsNameText a.1) (ha : ¬ Scannable a) (h : c.rest = attrText a ++ rest) :
    ∃ ts e, tagRest (fuel + 1) c = ⟨ts, .error e⟩ := by
  rw [attrText_append] at h
  obtain ⟨here, hhere, htag⟩ := tagRest_space hn h
  rw [htag, attrRest]
  cases hsplit : splitName? a.1.toList with
  | none =>
    obtain ⟨e, he⟩ := expectQName_of_none hhere hn (by decide) hsplit
    exact ⟨[], e, by simp only [he, Scan.lift_error_bind]⟩
  | some n =>
    have hbad : ∃ y ∈ escapedChars a.2.toList, isXmlChar y = false := by
      by_contra hall
      refine ha ⟨by rw [hsplit]; rfl, forall_isXmlChar_escapedChars.mp fun y hy => ?_⟩
      cases hy' : isXmlChar y with
      | true => rfl
      | false => exact absurd ⟨y, hy, hy'⟩ hall
    obtain ⟨c₁, h₁, e₁⟩ := expectQName_of_some hhere hn (by decide) hsplit
    obtain ⟨c₂, h₂, e₂⟩ := expectEquals_cons h₁ (by decide)
    obtain ⟨c₃, h₃, e₃⟩ := expectQuote_cons h₂
    obtain ⟨e, he⟩ := takeValue_error rest h₃ (fun hm => (mem_escapedChars_special hm).1 rfl)
      (fun hm => (mem_escapedChars_special hm).2 rfl) hbad
    exact ⟨[], e, by simp only [e₁, e₂, e₃, he, Scan.lift_ok_bind, Scan.lift_error_bind]⟩

theorem tagRest_attrs {as : List (String × String)} {c : Cursor} {rest : List Char} (fuel : Nat)
    (hn : ∀ a ∈ as, IsNameText a.1) (ha : ∀ a ∈ as, Scannable a)
    (h : c.rest = attrsText as ++ rest) :
    ∃ ts c', c'.rest = rest ∧ ts.map Token.mark = attrsMarks as ∧
      tagRest (fuel + as.length) c =
        ⟨ts ++ (tagRest fuel c').tokens, (tagRest fuel c').result⟩ := by
  induction as generalizing c with
  | nil => exact ⟨[], c, h, rfl, rfl⟩
  | cons a as ih =>
    rw [attrsText, List.flatMap_cons, List.append_assoc] at h
    obtain ⟨t, c₁, h₁, ht, e₁⟩ := @tagRest_attr (fuel + as.length) c a _
      (hn a List.mem_cons_self) (ha a List.mem_cons_self) h
    obtain ⟨ts, c', h', hts, e'⟩ := ih (fun b hb => hn b (List.mem_cons_of_mem a hb))
      (fun b hb => ha b (List.mem_cons_of_mem a hb)) h₁
    refine ⟨t :: ts, c', h', ?_, ?_⟩
    · rw [List.map_cons, ht, hts]
      rfl
    · rw [List.length_cons, ← Nat.add_assoc, e₁, e']
      rfl

theorem tagRest_attrs_error {as : List (String × String)} {c : Cursor} {rest : List Char}
    (fuel : Nat) (hn : ∀ a ∈ as, IsNameText a.1) (ha : ¬ ∀ a ∈ as, Scannable a)
    (h : c.rest = attrsText as ++ rest) :
    ∃ ts e, tagRest (fuel + as.length) c = ⟨ts, .error e⟩ := by
  induction as generalizing c with
  | nil => exact absurd (by simp) ha
  | cons a as ih =>
    rw [attrsText, List.flatMap_cons, List.append_assoc] at h
    rw [List.length_cons, ← Nat.add_assoc]
    have hna := hn a List.mem_cons_self
    by_cases hfirst : Scannable a
    · obtain ⟨t, c₁, h₁, -, e₁⟩ := @tagRest_attr (fuel + as.length) c a _ hna hfirst h
      have hrest : ¬ ∀ b ∈ as, Scannable b := fun hall => ha fun b hb => by
        rcases List.mem_cons.mp hb with rfl | hb
        · exact hfirst
        · exact hall b hb
      obtain ⟨ts, e, he⟩ := ih (fun b hb => hn b (List.mem_cons_of_mem a hb)) hrest h₁
      exact ⟨t :: ts, e, by rw [e₁, he]⟩
    · exact tagRest_attr_error hna hfirst h

theorem tagRest_empty {c : Cursor} {rest : List Char} (fuel : Nat)
    (h : c.rest = '/' :: '>' :: rest) :
    ∃ c', c'.rest = rest ∧ tagRest (fuel + 1) c = ⟨[.tagEnd true], .ok (.empty, c')⟩ := by
  have hspaces := rest_spaces_of_not_space h (by decide)
  have hskip : (c.spaces.skip 1).rest = '>' :: rest := by
    rw [rest_skip, hspaces]
    rfl
  obtain ⟨c', h', e'⟩ := expectChar_cons hskip
  have hempty : c.rest.isEmpty = false := by rw [h]; rfl
  refine ⟨c', h', ?_⟩
  rw [tagRest]
  simp only [hempty, current_cons hspaces, e', Bool.false_eq_true, if_false, if_true,
    Scan.lift_ok_bind, Scan.emit_bind]
  rfl

theorem tagRest_opened {c : Cursor} {rest : List Char} (fuel : Nat) (h : c.rest = '>' :: rest) :
    ∃ c', c'.rest = rest ∧ tagRest (fuel + 1) c = ⟨[.tagEnd false], .ok (.opened, c')⟩ := by
  have hspaces := rest_spaces_of_not_space h (by decide)
  have hempty : c.rest.isEmpty = false := by rw [h]; rfl
  have hslash : ('>' : Char) ≠ '/' := by decide
  refine ⟨c.spaces.skip 1, by rw [rest_skip, hspaces]; rfl, ?_⟩
  rw [tagRest]
  simp only [hempty, current_cons hspaces, hslash, Bool.false_eq_true, if_false, if_true,
    Scan.lift_ok_bind, Scan.emit_bind]
  rfl

/-! ## Tags -/

theorem length_le_attrsText (as : List (String × String)) : as.length ≤ (attrsText as).length := by
  induction as with
  | nil => exact Nat.zero_le _
  | cons a as ih =>
    have hpos : 0 < (attrText a).length := by simp [attrText]
    rw [attrsText, List.flatMap_cons, List.length_append, List.length_cons]
    rw [attrsText] at ih
    omega

/-- What follows the name of an element cannot be taken for a part of it. -/
theorem attrsText_append_eq_cons (as : List (String × String)) {x : Char} {xs : List Char}
    (hx : isNameChar x = false) :
    ∃ y ys, attrsText as ++ x :: xs = y :: ys ∧ isNameChar y = false := by
  cases as with
  | nil => exact ⟨x, xs, rfl, hx⟩
  | cons a as => exact ⟨' ', _, rfl, by decide⟩

theorem startTag_name {c : Cursor} {name : String} {as : List (String × String)} {x : Char}
    {xs : List Char} (ht : IsTag name) (hx : isNameChar x = false)
    (h : c.rest = '<' :: (name.toList ++ (attrsText as ++ x :: xs))) :
    ∃ after : Cursor, after.rest = attrsText as ++ x :: xs ∧ ∃ fuel,
      c.startTag =
        ⟨.tagStart ⟨"", name⟩ c.position :: (tagRest (fuel + 1 + as.length) after).tokens,
          (tagRest (fuel + 1 + as.length) after).result⟩ := by
  obtain ⟨y, ys, hys, hy⟩ := @attrsText_append_eq_cons as x xs hx
  have hskip : (c.skip 1).rest = name.toList ++ y :: ys := by
    rw [rest_skip, h, hys]
    rfl
  obtain ⟨after, hafter, e⟩ := expectQName_of_some hskip ht.nameText hy ht.split
  rw [← hys] at hafter
  have hlen := length_le_attrsText as
  refine ⟨after, hafter, after.rest.length - as.length, ?_⟩
  have hfuel : after.rest.length - as.length + 1 + as.length = after.rest.length + 1 := by
    have : as.length ≤ after.rest.length := by
      rw [hafter, List.length_append]
      omega
    omega
  have hq : ("" : String) ≠ "xmlns" := by decide
  rw [hfuel, startTag]
  simp only [e, hq, if_false, Scan.lift_ok_bind, Scan.emit_bind]

theorem startTag_empty {c : Cursor} {name : String} {as : List (String × String)}
    {rest : List Char} (ht : IsTag name) (hn : ∀ a ∈ as, IsNameText a.1)
    (ha : ∀ a ∈ as, Scannable a)
    (h : c.rest = '<' :: (name.toList ++ (attrsText as ++ '/' :: '>' :: rest))) :
    ∃ ts c', c'.rest = rest ∧
      ts.map Token.mark = .start ⟨"", name⟩ :: (attrsMarks as ++ [.stop true]) ∧
      c.startTag = ⟨ts, .ok (.empty, c')⟩ := by
  obtain ⟨after, hafter, fuel, e⟩ := startTag_name ht (by decide) h
  obtain ⟨ts, c₁, h₁, hts, e₁⟩ := tagRest_attrs (fuel + 1) hn ha hafter
  obtain ⟨c', h', e'⟩ := tagRest_empty fuel h₁
  rw [e₁, e'] at e
  refine ⟨_, c', h', ?_, e⟩
  simp only [List.map_cons, List.map_append, hts, List.map_nil, Token.mark]

theorem startTag_opened {c : Cursor} {name : String} {as : List (String × String)}
    {rest : List Char} (ht : IsTag name) (hn : ∀ a ∈ as, IsNameText a.1)
    (ha : ∀ a ∈ as, Scannable a)
    (h : c.rest = '<' :: (name.toList ++ (attrsText as ++ '>' :: rest))) :
    ∃ ts c', c'.rest = rest ∧
      ts.map Token.mark = .start ⟨"", name⟩ :: (attrsMarks as ++ [.stop false]) ∧
      c.startTag = ⟨ts, .ok (.opened, c')⟩ := by
  obtain ⟨after, hafter, fuel, e⟩ := startTag_name ht (by decide) h
  obtain ⟨ts, c₁, h₁, hts, e₁⟩ := tagRest_attrs (fuel + 1) hn ha hafter
  obtain ⟨c', h', e'⟩ := tagRest_opened fuel h₁
  rw [e₁, e'] at e
  refine ⟨_, c', h', ?_, e⟩
  simp only [List.map_cons, List.map_append, hts, List.map_nil, Token.mark]

theorem startTag_error {c : Cursor} {name : String} {as : List (String × String)} {x : Char}
    {xs : List Char} (ht : IsTag name) (hn : ∀ a ∈ as, IsNameText a.1)
    (ha : ¬ ∀ a ∈ as, Scannable a) (hx : isNameChar x = false)
    (h : c.rest = '<' :: (name.toList ++ (attrsText as ++ x :: xs))) :
    ∃ ts e, c.startTag = ⟨ts, .error e⟩ := by
  obtain ⟨after, hafter, fuel, e⟩ := startTag_name ht hx h
  obtain ⟨ts, e₁, h₁⟩ := tagRest_attrs_error (fuel + 1) hn ha hafter
  rw [h₁] at e
  exact ⟨_, e₁, e⟩

theorem closeTag_printed {c : Cursor} {name : String} {rest : List Char} (ht : IsTag name)
    (h : c.rest = '<' :: '/' :: (name.toList ++ '>' :: rest)) :
    ∃ c' p, c'.rest = rest ∧ c.closeTag = ⟨[.close ⟨"", name⟩ p], .ok c'⟩ := by
  have hskip : (c.skip 2).rest = name.toList ++ '>' :: rest := by
    rw [rest_skip, h]
    rfl
  obtain ⟨c₁, h₁, e₁⟩ := expectQName_of_some hskip ht.nameText (by decide) ht.split
  obtain ⟨c', h', e'⟩ := expectChar_cons (rest_spaces_of_not_space h₁ (by decide))
  refine ⟨c', c.position, h', ?_⟩
  rw [closeTag]
  simp only [e₁, e', Scan.lift_ok_bind, Scan.emit_bind]
  rfl

/-! ## Content -/

theorem IsTag_cons {name : String} (h : IsTag name) :
    ∃ y ys, name.toList = y :: ys ∧ isNameChar y = true := by
  cases hn : name.toList with
  | nil =>
    have hsplit := h.split
    rw [hn] at hsplit
    contradiction
  | cons y ys => exact ⟨y, ys, rfl, h.nameText y (by rw [hn]; exact List.mem_cons_self)⟩

/-- What comes of content after a start tag. -/
def contentAfter (fuel level : Nat) (r : TagEnd × Cursor) : Scan Cursor :=
  match r.1 with
  | .opened => contentRest fuel (level + 1) r.2
  | _ => contentRest fuel level r.2

theorem contentRest_startTag {fuel level : Nat} {c : Cursor} {name : String} {rest : List Char}
    (ht : IsTag name) (h : c.rest = '<' :: (name.toList ++ rest)) :
    contentRest (fuel + 1) level c = c.startTag >>= contentAfter fuel level := by
  obtain ⟨y, ys, hname, hy⟩ := IsTag_cons ht
  rw [hname, List.cons_append] at h
  have h1 : y ≠ '!' := by rintro rfl; contradiction
  have h2 : y ≠ '?' := by rintro rfl; contradiction
  have h3 := (ne_of_isNameChar hy).2.1
  have hempty : c.rest.isEmpty = false := by rw [h]; rfl
  have hcut : c.rest ≠ ['<'] := by rw [h]; simp
  have hbang : c.startsWith "<!" = false := by simp [startsWith, h, List.isPrefixOf, Ne.symm h1]
  have hquery : c.startsWith "<?" = false := by simp [startsWith, h, List.isPrefixOf, Ne.symm h2]
  have hslash : c.startsWith "</" = false := by simp [startsWith, h, List.isPrefixOf, Ne.symm h3]
  have hless : c.startsWith "<" = true := by simp [startsWith, h, List.isPrefixOf]
  rw [contentRest]
  simp only [hempty, hcut, hbang, hquery, hslash, hless, Bool.false_eq_true, if_false, if_true]
  rfl

theorem contentRest_closeTag {fuel level : Nat} {c : Cursor} {ys : List Char}
    (h : c.rest = '<' :: '/' :: ys) :
    contentRest (fuel + 1) level c = (do
      let c ← c.closeTag
      if level = 0 then pure c else contentRest fuel (level - 1) c) := by
  have hempty : c.rest.isEmpty = false := by rw [h]; rfl
  have hbang : c.startsWith "<!" = false := by simp [startsWith, h, List.isPrefixOf]
  have hquery : c.startsWith "<?" = false := by simp [startsWith, h, List.isPrefixOf]
  have hslash : c.startsWith "</" = true := by simp [startsWith, h, List.isPrefixOf]
  rw [contentRest]
  simp only [hempty, hbang, hquery, hslash, Bool.false_eq_true, if_false, if_true]

end Cursor

namespace Printed

mutual

/-- What holds of the name and the attributes of every element. -/
def Forall (P : String → List (String × String) → Prop) : Printed → Prop
  | empty name as => P name as
  | full name as cs => P name as ∧ ForestForall P cs

def ForestForall (P : String → List (String × String) → Prop) : List Printed → Prop
  | [] => True
  | p :: ps => p.Forall P ∧ ForestForall P ps

end

/-- Elements whose names have no colon, with attributes whose names consist of characters of
names. -/
def Spelled (name : String) (as : List (String × String)) : Prop :=
  IsTag name ∧ ∀ a ∈ as, IsNameText a.1

def AllScannable (_ : String) (as : List (String × String)) : Prop := ∀ a ∈ as, Scannable a

theorem text_empty_append (name : String) (as : List (String × String)) (rest : List Char) :
    (empty name as).text ++ rest =
      '<' :: (name.toList ++ (attrsText as ++ '/' :: '>' :: rest)) := by
  simp [text]

theorem text_full_append (name : String) (as : List (String × String)) (cs : List Printed)
    (rest : List Char) :
    (full name as cs).text ++ rest = '<' :: (name.toList ++ (attrsText as ++ '>' ::
      (forestText cs ++ '<' :: '/' :: (name.toList ++ '>' :: rest)))) := by
  simp [text]

open Cursor

mutual

/-- Scanning content that was printed goes on behind it, after the tokens that it consists of. -/
theorem contentRest_printed (p : Printed) (hs : p.Forall Spelled) (ha : p.Forall AllScannable)
    (fuel level : Nat) (c : Cursor) (rest : List Char) (h : c.rest = p.text ++ rest) :
    ∃ ts c', c'.rest = rest ∧ ts.map Token.mark = p.marks ∧
      contentRest (fuel + p.tags) level c =
        ⟨ts ++ (contentRest fuel level c').tokens, (contentRest fuel level c').result⟩ := by
  match p with
  | empty name as =>
    rw [text_empty_append] at h
    obtain ⟨ts, c', hc', hts, e⟩ := startTag_empty hs.1 hs.2 ha h
    refine ⟨ts, c', hc', hts, ?_⟩
    rw [tags, contentRest_startTag hs.1 h, e]
    rfl
  | full name as cs =>
    rw [text_full_append] at h
    obtain ⟨ts, c₁, h₁, hts, e₁⟩ := startTag_opened hs.1.1 hs.1.2 ha.1 h
    -- the children are read one level deeper, which the end tag of the element goes back from
    obtain ⟨us, c₂, h₂, hus, e₂⟩ := contentRest_forest cs hs.2 ha.2 (fuel + 1) (level + 1) c₁ _ h₁
    obtain ⟨c₃, p, h₃, e₃⟩ := closeTag_printed hs.1.1 h₂
    refine ⟨ts ++ us ++ [.close ⟨"", name⟩ p], c₃, h₃, ?_, ?_⟩
    · simp only [List.map_append, hts, hus, marks, List.map_cons, List.map_nil, Token.mark,
        List.cons_append, List.append_assoc, List.nil_append]
    · have hfuel : fuel + (forestTags cs + 2) = fuel + 1 + forestTags cs + 1 := by omega
      rw [tags, hfuel, contentRest_startTag hs.1.1 h, e₁, Scan.ok_bind]
      dsimp only [contentAfter]
      rw [e₂, contentRest_closeTag h₂, e₃, Scan.ok_bind, if_neg (Nat.succ_ne_zero level)]
      simp only [List.append_assoc, Nat.add_sub_cancel]

theorem contentRest_forest (ps : List Printed) (hs : ForestForall Spelled ps)
    (ha : ForestForall AllScannable ps) (fuel level : Nat) (c : Cursor) (rest : List Char)
    (h : c.rest = forestText ps ++ rest) :
    ∃ ts c', c'.rest = rest ∧ ts.map Token.mark = forestMarks ps ∧
      contentRest (fuel + forestTags ps) level c =
        ⟨ts ++ (contentRest fuel level c').tokens, (contentRest fuel level c').result⟩ := by
  match ps with
  | [] => exact ⟨[], c, h, rfl, rfl⟩
  | p :: ps =>
    rw [forestText, List.append_assoc] at h
    -- each tree uses up the fuel for its own tags and leaves that of its siblings
    have hfuel : fuel + forestTags (p :: ps) = fuel + forestTags ps + p.tags := by
      rw [forestTags]
      omega
    obtain ⟨ts, c₁, h₁, hts, e₁⟩ :=
      contentRest_printed p hs.1 ha.1 (fuel + forestTags ps) level c _ h
    obtain ⟨us, c', h', hus, e₂⟩ := contentRest_forest ps hs.2 ha.2 fuel level c₁ rest h₁
    refine ⟨ts ++ us, c', h', by rw [List.map_append, hts, hus, forestMarks], ?_⟩
    rw [hfuel, e₁, e₂, List.append_assoc]

end

mutual

/-- Content that cannot be scanned to its end is an error. -/
theorem contentRest_printed_error (p : Printed) (hs : p.Forall Spelled)
    (ha : ¬ p.Forall AllScannable) (fuel level : Nat) (c : Cursor) (rest : List Char)
    (h : c.rest = p.text ++ rest) :
    ∃ ts e, contentRest (fuel + p.tags) level c = ⟨ts, .error e⟩ := by
  match p with
  | empty name as =>
    rw [text_empty_append] at h
    obtain ⟨ts, e, he⟩ := startTag_error hs.1 hs.2 ha (by decide) h
    exact ⟨ts, e, by rw [tags, contentRest_startTag hs.1 h, he, Scan.error_bind]⟩
  | full name as cs =>
    rw [text_full_append] at h
    have hfuel : fuel + (forestTags cs + 2) = fuel + 1 + forestTags cs + 1 := by omega
    rw [tags, hfuel, contentRest_startTag hs.1.1 h]
    -- the fault is in the start tag, or the tag is fine and the fault is below it
    by_cases has : AllScannable name as
    · have hcs : ¬ ForestForall AllScannable cs := fun hcs => ha ⟨has, hcs⟩
      obtain ⟨ts, c₁, h₁, -, e₁⟩ := startTag_opened hs.1.1 hs.1.2 has h
      obtain ⟨us, e, e₂⟩ :=
        contentRest_forest_error cs hs.2 hcs (fuel + 1) (level + 1) c₁ _ h₁
      rw [e₁, Scan.ok_bind]
      dsimp only [contentAfter]
      rw [e₂]
      exact ⟨_, e, rfl⟩
    · obtain ⟨ts, e, he⟩ := startTag_error hs.1.1 hs.1.2 has (by decide) h
      exact ⟨ts, e, by rw [he, Scan.error_bind]⟩

theorem contentRest_forest_error (ps : List Printed) (hs : ForestForall Spelled ps)
    (ha : ¬ ForestForall AllScannable ps) (fuel level : Nat) (c : Cursor) (rest : List Char)
    (h : c.rest = forestText ps ++ rest) :
    ∃ ts e, contentRest (fuel + forestTags ps) level c = ⟨ts, .error e⟩ := by
  match ps with
  | [] => exact absurd trivial ha
  | p :: ps =>
    rw [forestText, List.append_assoc] at h
    have hfuel : fuel + forestTags (p :: ps) = fuel + forestTags ps + p.tags := by
      rw [forestTags]
      omega
    rw [hfuel]
    by_cases hp : p.Forall AllScannable
    · obtain ⟨ts, c₁, h₁, -, e₁⟩ :=
        contentRest_printed p hs.1 hp (fuel + forestTags ps) level c _ h
      obtain ⟨us, e, e₂⟩ := contentRest_forest_error ps hs.2 (fun hps => ha ⟨hp, hps⟩) fuel level
        c₁ rest h₁
      rw [e₁, e₂]
      exact ⟨_, e, rfl⟩
    · exact contentRest_printed_error p hs.1 hp (fuel + forestTags ps) level c _ h

end

/-! ## Documents -/

mutual

theorem tags_le_length (p : Printed) : p.tags ≤ p.text.length := by
  match p with
  | empty name as =>
    rw [tags, text, List.length_cons]
    omega
  | full name as cs =>
    have ih := forestTags_le_length cs
    rw [tags, text]
    simp only [List.length_cons, List.length_append]
    omega

theorem forestTags_le_length (ps : List Printed) : forestTags ps ≤ (forestText ps).length := by
  match ps with
  | [] => exact Nat.zero_le _
  | p :: ps =>
    have h1 := tags_le_length p
    have h2 := forestTags_le_length ps
    rw [forestTags, forestText, List.length_append]
    omega

end

theorem misc_of_tag {c : Cursor} {y : Char} {ys : List Char} (hy : isNameChar y = true)
    (h : c.rest = '<' :: y :: ys) : c.misc = .ok c := by
  have h1 : y ≠ '!' := by rintro rfl; contradiction
  have h2 : y ≠ '?' := by rintro rfl; contradiction
  have hempty : c.rest.isEmpty = false := by rw [h]; rfl
  have hcomment : c.startsWith "<!--" = false := by
    simp [startsWith, h, List.isPrefixOf, Ne.symm h1]
  have hquery : c.startsWith "<?" = false := by simp [startsWith, h, List.isPrefixOf, Ne.symm h2]
  rw [misc, miscRest]
  simp only [hempty, spaces_of_not_space h (by decide), hcomment, hquery, Bool.false_eq_true,
    if_false]
  rfl

theorem misc_of_nil {c : Cursor} (h : c.rest = []) : c.misc = .ok c := by
  have hempty : c.rest.isEmpty = true := by rw [h]; rfl
  rw [misc, miscRest]
  simp only [hempty, if_true]
  rfl

/-- What comes of a document after its first start tag: the element, then nothing but what may
stand between. -/
def documentAfter (r : TagEnd × Cursor) : Scan Unit := do
  let c ← match r.1 with
    | .opened => r.2.content
    | _ => pure r.2
  let c ← c.misc
  if c.rest.isEmpty then pure () else Scan.lift (c.fail .unknownToken)

theorem document_of_tag {c : Cursor} {name : String} {rest : List Char} (ht : IsTag name)
    (h : c.rest = '<' :: (name.toList ++ rest)) :
    c.document = c.startTag >>= documentAfter := by
  obtain ⟨y, ys, hname, hy⟩ := IsTag_cons ht
  rw [hname, List.cons_append] at h
  have h1 : y ≠ '!' := by rintro rfl; contradiction
  have h2 : y ≠ '?' := by rintro rfl; contradiction
  have hmark : c.rest.head? ≠ some (Char.ofNat 0xFEFF) := by
    rw [h, List.head?_cons, ne_eq, Option.some.injEq]
    decide
  have hdeclaration : c.startsWith "<?xml " = false := by
    simp [startsWith, h, List.isPrefixOf, Ne.symm h2]
  have hdoctype : c.startsWith "<!DOCTYPE" = false := by
    simp [startsWith, h, List.isPrefixOf, Ne.symm h1]
  have hless : c.startsWith "<" = true := by simp [startsWith, h, List.isPrefixOf]
  have hspaces := spaces_of_not_space h (by decide)
  rw [Cursor.document]
  simp only [hmark, hdeclaration, hdoctype, hless, misc_of_tag hy h, hspaces, Bool.false_eq_true,
    if_false, if_true, Scan.lift_ok_bind, Scan.pure_bind]
  rfl

theorem content_fuel {ps : List Printed} {c : Cursor} {rest : List Char}
    (h : c.rest = forestText ps ++ '<' :: rest) :
    ∃ fuel, c.content = contentRest (fuel + 1 + forestTags ps) 0 c := by
  have hlen := forestTags_le_length ps
  refine ⟨c.rest.length - forestTags ps, ?_⟩
  have hfuel : c.rest.length - forestTags ps + 1 + forestTags ps = c.rest.length + 1 := by
    have : forestTags ps ≤ c.rest.length := by
      rw [h, List.length_append]
      omega
    omega
  rw [hfuel, content]

theorem rest_ofText_full (name : String) (as : List (String × String)) (cs : List Printed) :
    (Cursor.ofText (full name as cs).text).rest = '<' :: (name.toList ++ (attrsText as ++ '>' ::
      (forestText cs ++ '<' :: '/' :: (name.toList ++ ['>'])))) := by
  rw [ofText, text]

/-- Scanning a printed document gives the tokens that it consists of. -/
theorem document_printed {name : String} {as : List (String × String)} {cs : List Printed}
    (hs : (full name as cs).Forall Spelled) (ha : (full name as cs).Forall AllScannable) :
    ∃ ts, ts.map Token.mark = (full name as cs).marks ∧
      (Cursor.ofText (full name as cs).text).document = ⟨ts, .ok ()⟩ := by
  have h := rest_ofText_full name as cs
  obtain ⟨ts, c₁, h₁, hts, e₁⟩ := startTag_opened hs.1.1 hs.1.2 ha.1 h
  obtain ⟨fuel, hfuel⟩ := content_fuel h₁
  obtain ⟨us, c₂, h₂, hus, e₂⟩ := contentRest_forest cs hs.2 ha.2 (fuel + 1) 0 c₁ _ h₁
  obtain ⟨c₃, p, h₃, e₃⟩ := closeTag_printed hs.1.1 h₂
  have hcontent : c₁.content = ⟨us ++ [.close ⟨"", name⟩ p], .ok c₃⟩ := by
    rw [hfuel, e₂, contentRest_closeTag h₂, e₃, Scan.ok_bind, if_pos rfl]
    rfl
  refine ⟨ts ++ us ++ [.close ⟨"", name⟩ p], ?_, ?_⟩
  · simp only [List.map_append, hts, hus, marks, List.map_cons, List.map_nil, Token.mark,
      List.cons_append, List.append_assoc, List.nil_append]
  · have hempty : c₃.rest.isEmpty = true := by rw [h₃]; rfl
    rw [document_of_tag hs.1.1 h, e₁, Scan.ok_bind]
    dsimp only [documentAfter]
    rw [hcontent, Scan.ok_bind]
    simp only [misc_of_nil h₃, hempty, if_true, Scan.lift_ok_bind, List.append_assoc]
    rfl

theorem document_error {name : String} {as : List (String × String)} {cs : List Printed}
    (hs : (full name as cs).Forall Spelled) (ha : ¬ (full name as cs).Forall AllScannable) :
    ∃ ts e, (Cursor.ofText (full name as cs).text).document = ⟨ts, .error e⟩ := by
  have h := rest_ofText_full name as cs
  rw [document_of_tag hs.1.1 h]
  by_cases has : AllScannable name as
  · obtain ⟨ts, c₁, h₁, -, e₁⟩ := startTag_opened hs.1.1 hs.1.2 has h
    obtain ⟨fuel, hfuel⟩ := content_fuel h₁
    obtain ⟨us, e, e₂⟩ := contentRest_forest_error cs hs.2 (fun hcs => ha ⟨has, hcs⟩) (fuel + 1) 0
      c₁ _ h₁
    rw [e₁, Scan.ok_bind]
    dsimp only [documentAfter]
    rw [hfuel, e₂, Scan.error_bind]
    exact ⟨_, e, rfl⟩
  · obtain ⟨ts, e, he⟩ := startTag_error hs.1.1 hs.1.2 has (by decide) h
    exact ⟨ts, e, by rw [he, Scan.error_bind]⟩

end Printed

end IconCompiler.Xml
