import IconCompiler.Proofs.Xml.Values

/-!
Reading what was printed. Its elements come back as a tree in which every attribute has its value,
white space in it read as spaces, unless an attribute has a qualifier that nothing declares.
-/

namespace IconCompiler.Xml

/-- An attribute that declares no namespace. -/
structure IsPlain (a : String × String) : Prop where
  qualifier : (qnameOf a.1).qualifier ≠ "xmlns"
  localPart : (qnameOf a.1).localPart ≠ "xmlns"

/-- An attribute whose qualifier needs no declaration. -/
def Resolvable (a : String × String) : Prop :=
  (qnameOf a.1).qualifier = "" ∨ (qnameOf a.1).qualifier = "xml"

/-- What an attribute reads as. -/
def attrOf (a : String × String) : Attr :=
  ⟨if (qnameOf a.1).qualifier = "xml" then some xmlNamespace else none, (qnameOf a.1).localPart,
    blankedText a.2⟩

/-- Elements whose attributes declare no namespace and have different names. -/
def PlainAttrs (_ : String) (as : List (String × String)) : Prop :=
  (∀ a ∈ as, IsPlain a) ∧ (as.map fun a => qnameOf a.1).Nodup

def AllResolvable (_ : String) (as : List (String × String)) : Prop := ∀ a ∈ as, Resolvable a

namespace Printed

mutual

/-- The element as a tree in which these bindings are in force. -/
def tree (scope : List Binding) : Printed → Tree
  | empty name as => .element ⟨"", name⟩ scope (as.map attrOf) []
  | full name as cs => .element ⟨"", name⟩ scope (as.map attrOf) (forest scope cs)

def forest (scope : List Binding) : List Printed → List Tree
  | [] => []
  | p :: ps => p.tree scope :: forest scope ps

end

end Printed

/-! ## Tokens -/

theorem exists_tagStart {t : Token} {n : QName} (h : t.mark = .start n) :
    ∃ p, t = .tagStart n p := by
  cases t with
  | tagStart m p => exact ⟨p, by rw [Mark.start.inj h]⟩
  | _ => simp [Token.mark] at h

theorem exists_attr {t : Token} {n : QName} {v : List Char} (h : t.mark = .attr n v) :
    ∃ p c, t = .attr n p c ∧ c.rest = v := by
  cases t with
  | attr m p c =>
    obtain ⟨rfl, hc⟩ := Mark.attr.inj h
    exact ⟨p, c, rfl, hc⟩
  | _ => simp [Token.mark] at h

theorem eq_tagEnd {t : Token} {b : Bool} (h : t.mark = .stop b) : t = .tagEnd b := by
  cases t with
  | tagEnd a => rw [Mark.stop.inj h]
  | _ => simp [Token.mark] at h

theorem exists_close {t : Token} {n : QName} (h : t.mark = .close n) :
    ∃ p, t = .close n p := by
  cases t with
  | close m p => exact ⟨p, by rw [Mark.close.inj h]⟩
  | _ => simp [Token.mark] at h

theorem QName.eq_of_parts {m n : QName} (hq : m.qualifier = n.qualifier)
    (hl : m.localPart = n.localPart) : m = n := by
  cases m
  cases n
  simp only at hq hl
  rw [hq, hl]

namespace Reading

variable {expand : List Token → Reading → Except Error Reading} {r : Reading}

/-! ## Attributes -/

/-- The attributes that wait for their element are those of the list. -/
def Awaits (ps : List Pending) (as : List (String × String)) : Prop :=
  ps.map (fun p => (p.name, p.value)) = as.map fun a => (qnameOf a.1, blankedText a.2)

theorem foldlM_attrs {as : List (String × String)} {ts : List Token}
    (ht : ts.map Token.mark = attrsMarks as) (hn : r.nesting = .outside)
    (ha : ∀ a ∈ as, IsPlain a) :
    ∃ ps, Awaits ps as ∧ ts.foldlM (step expand) r =
      .ok { r with attributes := r.attributes ++ ps } := by
  induction as generalizing r ts with
  | nil =>
    obtain rfl := List.map_eq_nil_iff.mp ht
    exact ⟨[], rfl, by rw [List.append_nil]; rfl⟩
  | cons a as ih =>
    obtain ⟨t, ts, rfl, htoken, hts⟩ := List.map_eq_cons_iff.mp ht
    obtain ⟨p, c, rfl, hc⟩ := exists_attr htoken
    have hplain := ha a List.mem_cons_self
    have hvalue := valueIn_escapedChars r.entities a.2.toList c hc
    rw [← hn] at hvalue
    -- no attribute of the list declares a namespace, so each of them waits
    have hstep : step expand r (.attr (qnameOf a.1) p c) =
        .ok { r with attributes := r.attributes ++ [⟨qnameOf a.1, p, blankedText a.2⟩] } := by
      simp only [step, noteAttr, hvalue, hplain.qualifier, hplain.localPart, if_false, bind,
        Except.bind, pure, Except.pure]
      rfl
    obtain ⟨ps, hps, e⟩ := @ih { r with
      attributes := r.attributes ++ [⟨qnameOf a.1, p, blankedText a.2⟩] } ts hts hn
        fun b hb => ha b (List.mem_cons_of_mem a hb)
    refine ⟨⟨qnameOf a.1, p, blankedText a.2⟩ :: ps, ?_, ?_⟩
    · rw [Awaits] at hps ⊢
      rw [List.map_cons, List.map_cons, hps]
    · rw [List.foldlM_cons, hstep]
      simp only [bind, Except.bind, e, List.append_assoc, List.singleton_append]

/-- Nothing but the default namespace is bound. -/
def OnlyDefault (scope : List Binding) : Prop := ∀ b ∈ scope, b.qualifier = ""

theorem attrOf_namespaceName {a : String × String} (h : Resolvable a) :
    ((qnameOf a.1).qualifier = "xml" ∧ (attrOf a).namespaceName = some xmlNamespace) ∨
      ((qnameOf a.1).qualifier = "" ∧ (attrOf a).namespaceName = none) := by
  rcases h with h | h
  · exact Or.inr ⟨h, by simp [attrOf, h]⟩
  · exact Or.inl ⟨h, by simp [attrOf, h]⟩

theorem qnameOf_eq_of_attrOf {a b : String × String} (ha : Resolvable a) (hb : Resolvable b)
    (hn : (attrOf a).namespaceName = (attrOf b).namespaceName)
    (hl : (attrOf a).localPart = (attrOf b).localPart) : qnameOf a.1 = qnameOf b.1 := by
  have hq : (qnameOf a.1).qualifier = (qnameOf b.1).qualifier := by
    rcases attrOf_namespaceName ha with ⟨h1, e1⟩ | ⟨h1, e1⟩ <;>
      rcases attrOf_namespaceName hb with ⟨h2, e2⟩ | ⟨h2, e2⟩
    · rw [h1, h2]
    · rw [e1, e2] at hn
      contradiction
    · rw [e1, e2] at hn
      contradiction
    · rw [h1, h2]
  exact QName.eq_of_parts hq hl

theorem attrNamespace_ok {scope : List Binding} {a : String × String} (h : Resolvable a)
    {p : Pending} (hp : p.name = qnameOf a.1) :
    attrNamespace scope p = .ok (attrOf a).namespaceName := by
  unfold attrNamespace
  rw [hp]
  rcases attrOf_namespaceName h with ⟨h1, e1⟩ | ⟨h1, e1⟩
  · rw [if_pos h1, e1]
  · rw [h1, e1]
    rfl

theorem attrNamespace_error {scope : List Binding} (hs : OnlyDefault scope) {a : String × String}
    (h : ¬ Resolvable a) {p : Pending} (hp : p.name = qnameOf a.1) :
    ∃ e, attrNamespace scope p = .error e := by
  obtain ⟨hempty, hxml⟩ := not_or.mp h
  have hfind : scope.find? (fun b => b.qualifier = (qnameOf a.1).qualifier) = none := by
    rw [List.find?_eq_none]
    intro b hb
    rw [decide_eq_true_eq, hs b hb]
    exact Ne.symm hempty
  have hne : (qnameOf a.1).qualifier.isEmpty = false := by
    rw [Bool.eq_false_iff, ne_eq, String.isEmpty_iff]
    exact hempty
  unfold attrNamespace
  rw [hp, if_neg hxml, hne, if_neg Bool.false_ne_true]
  simp only [resolve, hfind, Except.map]
  exact ⟨_, rfl⟩

theorem Awaits.cons {ps : List Pending} {a : String × String} {as : List (String × String)}
    (h : Awaits ps (a :: as)) : ∃ p qs, ps = p :: qs ∧ p.name = qnameOf a.1 ∧
      p.value = blankedText a.2 ∧ Awaits qs as := by
  obtain ⟨p, qs, rfl, hp, hqs⟩ := List.map_eq_cons_iff.mp h
  exact ⟨p, qs, rfl, (Prod.mk.inj hp).1, (Prod.mk.inj hp).2, hqs⟩

theorem resolveAttrs_ok {scope : List Binding} {as : List (String × String)}
    {ps : List Pending} {resolved : List Attr} (hps : Awaits ps as)
    (ha : ∀ a ∈ as, Resolvable a) (hnodup : (as.map fun a => qnameOf a.1).Nodup)
    (hnew : ∀ b ∈ resolved, ∀ a ∈ as,
      b.namespaceName = (attrOf a).namespaceName → b.localPart ≠ (attrOf a).localPart) :
    resolveAttrs scope resolved ps = .ok (resolved ++ as.map attrOf) := by
  induction as generalizing ps resolved with
  | nil =>
    obtain rfl := List.map_eq_nil_iff.mp hps
    rw [resolveAttrs, List.map_nil, List.append_nil]
  | cons a as ih =>
    obtain ⟨p, qs, rfl, hname, hvalue, hqs⟩ := hps.cons
    have hra := ha a List.mem_cons_self
    rw [List.map_cons, List.nodup_cons] at hnodup
    have hfree : (resolved.any fun b => b.namespaceName = (attrOf a).namespaceName ∧
        b.localPart = p.name.localPart) = false := by
      rw [List.any_eq_false]
      intro b hb
      rw [decide_eq_true_eq, hname]
      exact fun hsame => hnew b hb a List.mem_cons_self hsame.1 hsame.2
    have hattr : (⟨(attrOf a).namespaceName, p.name.localPart, p.value⟩ : Attr) = attrOf a := by
      rw [hname, hvalue]
      rfl
    -- what is resolved so far carries the induction: two attributes that resolve alike are written
    -- alike, and no two are
    have hrest := @ih qs (resolved ++ [attrOf a]) hqs (fun b hb => ha b (List.mem_cons_of_mem a hb))
      hnodup.2 (fun b hb c hc hn hl => by
        rcases List.mem_append.mp hb with hb | hb
        · exact hnew b hb c (List.mem_cons_of_mem a hc) hn hl
        · obtain rfl := List.mem_singleton.mp hb
          have hrc := ha c (List.mem_cons_of_mem a hc)
          exact hnodup.1 (List.mem_map.mpr ⟨c, hc, (qnameOf_eq_of_attrOf hra hrc hn hl).symm⟩))
    rw [resolveAttrs, attrNamespace_ok hra hname]
    simp only [bind, Except.bind, hfree, Bool.false_eq_true, if_false, hattr, hrest,
      List.append_assoc, List.singleton_append, List.map_cons]

theorem resolveAttrs_error {scope : List Binding} (hs : OnlyDefault scope)
    {as : List (String × String)} {ps : List Pending} {resolved : List Attr} (hps : Awaits ps as)
    (ha : ¬ ∀ a ∈ as, Resolvable a) : ∃ e, resolveAttrs scope resolved ps = .error e := by
  induction as generalizing ps resolved with
  | nil => exact absurd (by simp) ha
  | cons a as ih =>
    obtain ⟨p, qs, rfl, hname, -, hqs⟩ := hps.cons
    by_cases hra : Resolvable a
    · have hrest : ¬ ∀ b ∈ as, Resolvable b := fun hall => ha fun b hb => by
        rcases List.mem_cons.mp hb with rfl | hb
        · exact hra
        · exact hall b hb
      rw [resolveAttrs, attrNamespace_ok hra hname]
      simp only [bind, Except.bind]
      split
      · exact ⟨_, rfl⟩
      · exact ih hqs hrest
    · obtain ⟨e, he⟩ := attrNamespace_error hs hra hname
      rw [resolveAttrs, he]
      exact ⟨e, rfl⟩

/-! ## Elements -/

/-- Between tags: nothing waits for the end of one, and no entity is being read. -/
def between (es : Entities) (tag : Option (QName × Position)) (fs : List Frame)
    (roots : List Tree) : Reading :=
  ⟨es, tag, [], [], .outside, fs, roots⟩

theorem foldlM_append_ok {r r' : Reading} {ts us : List Token}
    (h : ts.foldlM (step expand) r = .ok r') :
    (ts ++ us).foldlM (step expand) r = us.foldlM (step expand) r' := by
  rw [List.foldlM_append, h]
  rfl

theorem foldlM_append_error {r : Reading} {ts : List Token} (us : List Token) {e : Error}
    (h : ts.foldlM (step expand) r = .error e) :
    (ts ++ us).foldlM (step expand) r = .error e := by
  rw [List.foldlM_append, h]
  rfl

variable {es : Entities} {tag : Option (QName × Position)} {fs : List Frame} {roots : List Tree}
  {scope : List Binding} {name : String} {as : List (String × String)} {ts : List Token}

/-- A start tag up to its end. -/
theorem foldlM_tagStart (hp : ∀ a ∈ as, IsPlain a)
    (ht : ts.map Token.mark = .start ⟨"", name⟩ :: attrsMarks as) :
    ∃ p ps, Awaits ps as ∧ ts.foldlM (step expand) (between es tag fs roots) =
      .ok ⟨es, some (⟨"", name⟩, p), ps, [], .outside, fs, roots⟩ := by
  obtain ⟨t, us, rfl, htoken, hus⟩ := List.map_eq_cons_iff.mp ht
  obtain ⟨p, rfl⟩ := exists_tagStart htoken
  obtain ⟨ps, hps, e⟩ := @foldlM_attrs expand
    ⟨es, some (⟨"", name⟩, p), [], [], .outside, fs, roots⟩ as us hus rfl hp
  exact ⟨p, ps, hps, e⟩

/-- The end of a start tag, by which the element is open. -/
theorem endTag_opened {p : Position} {ps : List Pending} {bs : List Binding} (hps : Awaits ps as)
    (hn : (as.map fun a => qnameOf a.1).Nodup) (ha : ∀ a ∈ as, Resolvable a)
    (hs : (Reading.mk es (some (⟨"", name⟩, p)) ps bs .outside fs roots).scope = scope) :
    endTag ⟨es, some (⟨"", name⟩, p), ps, bs, .outside, fs, roots⟩ false =
      .ok (between es (some (⟨"", name⟩, p)) (⟨⟨"", name⟩, scope, as.map attrOf, []⟩ :: fs)
        roots) := by
  have hresolve := @resolveAttrs_ok scope as ps [] hps ha hn (by simp)
  rw [List.nil_append] at hresolve
  have hname : ("" : String).isEmpty = true := rfl
  simp only [endTag, hs, hresolve, hname, bind, Except.bind, pure, Except.pure, Bool.not_true,
    Bool.false_eq_true, if_false, between]

theorem endTag_empty {p : Position} {ps : List Pending} {bs : List Binding} {f : Frame}
    (hps : Awaits ps as) (hn : (as.map fun a => qnameOf a.1).Nodup)
    (ha : ∀ a ∈ as, Resolvable a)
    (hs : (Reading.mk es (some (⟨"", name⟩, p)) ps bs .outside (f :: fs) roots).scope = scope) :
    endTag ⟨es, some (⟨"", name⟩, p), ps, bs, .outside, f :: fs, roots⟩ true =
      .ok (between es (some (⟨"", name⟩, p))
        ({ f with children := .element ⟨"", name⟩ scope (as.map attrOf) [] :: f.children } :: fs)
          roots) := by
  have hresolve := @resolveAttrs_ok scope as ps [] hps ha hn (by simp)
  rw [List.nil_append] at hresolve
  have hname : ("" : String).isEmpty = true := rfl
  simp only [endTag, hs, hresolve, hname, bind, Except.bind, pure, Except.pure, Bool.not_true,
    Bool.false_eq_true, if_false, if_true, between, addTree]

theorem endTag_error {p : Position} {ps : List Pending} {bs : List Binding} (isEmpty : Bool)
    (hps : Awaits ps as) (hd : OnlyDefault scope) (ha : ¬ ∀ a ∈ as, Resolvable a)
    (hs : (Reading.mk es (some (⟨"", name⟩, p)) ps bs .outside fs roots).scope = scope) :
    ∃ e, endTag ⟨es, some (⟨"", name⟩, p), ps, bs, .outside, fs, roots⟩ isEmpty = .error e := by
  obtain ⟨e, he⟩ := @resolveAttrs_error scope hd as ps [] hps ha
  refine ⟨e, ?_⟩
  simp only [endTag, hs, he, bind, Except.bind]

/-- An end tag closes the element of its name, inside another one. -/
theorem closeTag_inside {n m : QName} {p : Position} {bs : List Binding} {attrs : List Attr}
    {trees : List Tree} {f : Frame} (position : Position) :
    closeTag (between es (some (m, p)) (⟨n, bs, attrs, trees⟩ :: f :: fs) roots) n position =
      .ok (between es (some (m, p))
        ({ f with children := .element n bs attrs trees.reverse :: f.children } :: fs) roots) := by
  simp only [closeTag, between, resolveAttrs, Option.isNone_some, Bool.false_eq_true, if_false,
    bind, Except.bind, pure, Except.pure, ne_eq, not_true_eq_false, addTree, Frame.close]

theorem closeTag_outermost {n m : QName} {p : Position} {bs : List Binding} {attrs : List Attr}
    {trees : List Tree} (position : Position) :
    closeTag (between es (some (m, p)) [⟨n, bs, attrs, trees⟩] roots) n position =
      .ok (between es (some (m, p)) [] (.element n bs attrs trees.reverse :: roots)) := by
  simp only [closeTag, between, resolveAttrs, Option.isNone_some, Bool.false_eq_true, if_false,
    bind, Except.bind, pure, Except.pure, ne_eq, not_true_eq_false, addTree, Frame.close]

/-- The tokens of a start tag, and those behind it. -/
theorem exists_start {ms : List Mark} {b : Bool}
    (ht : ts.map Token.mark = .start ⟨"", name⟩ :: (attrsMarks as ++ .stop b :: ms)) :
    ∃ us vs, ts = us ++ .tagEnd b :: vs ∧
      us.map Token.mark = .start ⟨"", name⟩ :: attrsMarks as ∧ vs.map Token.mark = ms := by
  rw [← List.cons_append] at ht
  obtain ⟨us, ws, rfl, hus, hws⟩ := List.map_eq_append_iff.mp ht
  obtain ⟨t, vs, rfl, htoken, hvs⟩ := List.map_eq_cons_iff.mp hws
  exact ⟨us, vs, by rw [eq_tagEnd htoken], hus, hvs⟩

/-- The tokens of an element behind its start tag end in that of its end tag. -/
theorem exists_closing {ms : List Mark} {n : QName}
    (ht : ts.map Token.mark = ms ++ [.close n]) :
    ∃ us p, ts = us ++ [.close n p] ∧ us.map Token.mark = ms := by
  obtain ⟨us, vs, rfl, hus, hvs⟩ := List.map_eq_append_iff.mp ht
  obtain ⟨t, ws, rfl, htoken, hws⟩ := List.map_eq_cons_iff.mp hvs
  obtain ⟨p, rfl⟩ := exists_close htoken
  obtain rfl := List.map_eq_nil_iff.mp hws
  exact ⟨us, p, rfl, hus⟩

/-- A child is added to the innermost open element. -/
def withChildren (f : Frame) (trees : List Tree) : Frame :=
  { f with children := trees.reverse ++ f.children }

mutual

/-- An element inside another one becomes its last child. -/
theorem foldlM_printed (p : Printed) (hp : p.Forall PlainAttrs) (ha : p.Forall AllResolvable)
    (ts : List Token) (ht : ts.map Token.mark = p.marks) (tag : QName × Position) (f : Frame)
    (fs : List Frame) :
    ∃ tag', ts.foldlM (step expand) (between es (some tag) (f :: fs) roots) =
      .ok (between es (some tag') (withChildren f [p.tree f.bindings] :: fs) roots) := by
  match p with
  | .empty name as =>
    obtain ⟨us, vs, rfl, hus, hvs⟩ := exists_start ht
    obtain rfl := List.map_eq_nil_iff.mp hvs
    obtain ⟨position, ps, hps, e⟩ := @foldlM_tagStart expand es (some tag) (f :: fs) roots name as
      us hp.1 hus
    have hend := @endTag_empty es fs roots f.bindings name as position ps [] f hps hp.2 ha rfl
    refine ⟨(⟨"", name⟩, position), ?_⟩
    rw [foldlM_append_ok e, List.foldlM_cons, step, hend]
    rfl
  | .full name as cs =>
    obtain ⟨us, vs, rfl, hus, hvs⟩ := exists_start ht
    obtain ⟨ws, closing, rfl, hws⟩ := exists_closing hvs
    obtain ⟨position, ps, hps, e⟩ := @foldlM_tagStart expand es (some tag) (f :: fs) roots name as
      us hp.1.1 hus
    have hend := @endTag_opened es (f :: fs) roots f.bindings name as position ps [] hps hp.1.2 ha.1
      rfl
    -- the children are added to the element that was opened, which its end tag then closes
    obtain ⟨tag', hforest⟩ := foldlM_forest cs hp.2 ha.2 ws hws (⟨"", name⟩, position)
      ⟨⟨"", name⟩, f.bindings, as.map attrOf, []⟩ (f :: fs)
    refine ⟨tag', ?_⟩
    rw [foldlM_append_ok e, List.foldlM_cons, step, hend]
    simp only [bind, Except.bind]
    rw [foldlM_append_ok hforest, List.foldlM_cons, step, withChildren, closeTag_inside]
    simp only [List.append_nil, List.reverse_reverse]
    rfl

theorem foldlM_forest (ps : List Printed) (hp : Printed.ForestForall PlainAttrs ps)
    (ha : Printed.ForestForall AllResolvable ps) (ts : List Token)
    (ht : ts.map Token.mark = Printed.forestMarks ps) (tag : QName × Position) (f : Frame)
    (fs : List Frame) :
    ∃ tag', ts.foldlM (step expand) (between es (some tag) (f :: fs) roots) =
      .ok (between es (some tag') (withChildren f (Printed.forest f.bindings ps) :: fs) roots) := by
  match ps with
  | [] =>
    obtain rfl := List.map_eq_nil_iff.mp ht
    exact ⟨tag, rfl⟩
  | p :: ps =>
    obtain ⟨us, vs, rfl, hus, hvs⟩ := List.map_eq_append_iff.mp ht
    obtain ⟨tag₁, e₁⟩ := foldlM_printed p hp.1 ha.1 us hus tag f fs
    obtain ⟨tag₂, e₂⟩ := foldlM_forest ps hp.2 ha.2 vs hvs tag₁
      (withChildren f [p.tree f.bindings]) fs
    refine ⟨tag₂, ?_⟩
    rw [foldlM_append_ok e₁, e₂]
    simp [withChildren, Printed.forest]

end

mutual

theorem foldlM_printed_error (p : Printed) (hp : p.Forall PlainAttrs)
    (ha : ¬ p.Forall AllResolvable) (ts : List Token) (ht : ts.map Token.mark = p.marks)
    (tag : QName × Position) (f : Frame) (hf : OnlyDefault f.bindings) (fs : List Frame) :
    ∃ e, ts.foldlM (step expand) (between es (some tag) (f :: fs) roots) = .error e := by
  match p with
  | .empty name as =>
    obtain ⟨us, vs, rfl, hus, -⟩ := exists_start ht
    obtain ⟨position, ps, hps, e⟩ := @foldlM_tagStart expand es (some tag) (f :: fs) roots name as
      us hp.1 hus
    obtain ⟨fault, hend⟩ := @endTag_error es (f :: fs) roots f.bindings name as position ps [] true
      hps hf ha rfl
    refine ⟨fault, ?_⟩
    rw [foldlM_append_ok e, List.foldlM_cons, step, hend]
    rfl
  | .full name as cs =>
    obtain ⟨us, vs, rfl, hus, hvs⟩ := exists_start ht
    obtain ⟨position, ps, hps, e⟩ := @foldlM_tagStart expand es (some tag) (f :: fs) roots name as
      us hp.1.1 hus
    rw [foldlM_append_ok e, List.foldlM_cons, step]
    -- the first fault is in the start tag or below it
    by_cases has : AllResolvable name as
    · obtain ⟨ws, xs, rfl, hws, -⟩ := List.map_eq_append_iff.mp hvs
      have hcs : ¬ Printed.ForestForall AllResolvable cs := fun hcs => ha ⟨has, hcs⟩
      have hend := @endTag_opened es (f :: fs) roots f.bindings name as position ps [] hps hp.1.2
        has rfl
      obtain ⟨fault, hforest⟩ := foldlM_forest_error cs hp.2 hcs ws hws (⟨"", name⟩, position)
        ⟨⟨"", name⟩, f.bindings, as.map attrOf, []⟩ hf (f :: fs)
      rw [hend]
      exact ⟨fault, foldlM_append_error xs hforest⟩
    · obtain ⟨fault, hend⟩ := @endTag_error es (f :: fs) roots f.bindings name as position ps []
        false hps hf has rfl
      exact ⟨fault, by rw [hend]; rfl⟩

theorem foldlM_forest_error (ps : List Printed) (hp : Printed.ForestForall PlainAttrs ps)
    (ha : ¬ Printed.ForestForall AllResolvable ps) (ts : List Token)
    (ht : ts.map Token.mark = Printed.forestMarks ps) (tag : QName × Position) (f : Frame)
    (hf : OnlyDefault f.bindings) (fs : List Frame) :
    ∃ e, ts.foldlM (step expand) (between es (some tag) (f :: fs) roots) = .error e := by
  match ps with
  | [] => exact absurd trivial ha
  | p :: ps =>
    obtain ⟨us, vs, rfl, hus, hvs⟩ := List.map_eq_append_iff.mp ht
    by_cases hfirst : p.Forall AllResolvable
    · obtain ⟨tag₁, e₁⟩ := @foldlM_printed expand es roots p hp.1 hfirst us hus tag f fs
      rw [foldlM_append_ok e₁]
      exact foldlM_forest_error ps hp.2 (fun hps => ha ⟨hfirst, hps⟩) vs hvs tag₁
        (withChildren f [p.tree f.bindings]) hf fs
    · obtain ⟨fault, e₁⟩ := foldlM_printed_error p hp.1 hfirst us hus tag f hf fs
      exact ⟨fault, foldlM_append_error vs e₁⟩

end

/-! ## Documents -/

/-- What the outermost element binds as the default namespace. -/
def defaultScope (namespaceName : String) : List Binding := [⟨"", namespaceName⟩]

/-- The start tag of an outermost element that binds the default namespace. -/
theorem foldlM_root {namespaceName : String} (hns : blankedText namespaceName = namespaceName)
    (hxml : namespaceName ≠ xmlNamespace) (hxmlns : namespaceName ≠ xmlnsNamespace)
    (hp : ∀ a ∈ as, IsPlain a)
    (ht : ts.map Token.mark = .start ⟨"", name⟩ :: attrsMarks (("xmlns", namespaceName) :: as)) :
    ∃ p ps, Awaits ps as ∧ ts.foldlM (step expand) start =
      .ok ⟨[], some (⟨"", name⟩, p), ps, defaultScope namespaceName, .outside, [], []⟩ := by
  obtain ⟨t, us, rfl, htoken, hus⟩ := List.map_eq_cons_iff.mp ht
  obtain ⟨p, rfl⟩ := exists_tagStart htoken
  obtain ⟨t, vs, rfl, htoken, hvs⟩ := List.map_eq_cons_iff.mp hus
  obtain ⟨q, c, rfl, hc⟩ := exists_attr htoken
  have hvalue := valueIn_escapedChars [] namespaceName.toList c hc
  obtain ⟨ps, hps, e⟩ := @foldlM_attrs expand
    ⟨[], some (⟨"", name⟩, p), [], defaultScope namespaceName, .outside, [], []⟩ as vs hvs rfl hp
  have hbind : step expand ⟨[], some (⟨"", name⟩, p), [], [], .outside, [], []⟩
      (.attr (qnameOf "xmlns") q c) =
        .ok ⟨[], some (⟨"", name⟩, p), [], defaultScope namespaceName, .outside, [], []⟩ := by
    have hq : qnameOf "xmlns" = ⟨"", "xmlns"⟩ := by decide
    have hne : ("" : String) ≠ "xmlns" := by decide
    rw [blankedText] at hns
    simp only [step, noteAttr, hvalue, hq, hne, hns, bindDefault, hxml, hxmlns, if_false, if_true,
      bind, Except.bind, List.nil_append, defaultScope]
  refine ⟨p, ps, hps, ?_⟩
  rw [List.foldlM_cons, step]
  simp only [bind, Except.bind, start]
  rw [List.foldlM_cons, hbind]
  exact e

/-- The outermost element, read to its end. -/
theorem run_root {namespaceName : String} {cs : List Printed} {budget : Nat}
    (hns : blankedText namespaceName = namespaceName) (hxml : namespaceName ≠ xmlNamespace)
    (hxmlns : namespaceName ≠ xmlnsNamespace)
    (hp : (Printed.full name as cs).Forall PlainAttrs)
    (ha : (Printed.full name as cs).Forall AllResolvable)
    (ht : ts.map Token.mark = (Printed.full name (("xmlns", namespaceName) :: as) cs).marks) :
    ∃ tag', run (budget + 1) ts start = .ok (between [] (some tag') []
      [(Printed.full name as cs).tree (defaultScope namespaceName)]) := by
  obtain ⟨us, vs, rfl, hus, hvs⟩ := exists_start ht
  obtain ⟨ws, closing, rfl, hws⟩ := exists_closing hvs
  obtain ⟨position, ps, hps, e⟩ := @foldlM_root (run budget) name as us namespaceName hns hxml
    hxmlns hp.1.1 hus
  have hend := @endTag_opened [] [] [] (defaultScope namespaceName) name as position ps
    (defaultScope namespaceName) hps hp.1.2 ha.1 (by simp [scope, defaultScope])
  obtain ⟨tag', hforest⟩ := @foldlM_forest (run budget) [] [] cs hp.2 ha.2 ws hws
    (⟨"", name⟩, position) ⟨⟨"", name⟩, defaultScope namespaceName, as.map attrOf, []⟩ []
  refine ⟨tag', ?_⟩
  rw [run, foldlM_append_ok e, List.foldlM_cons, step, hend]
  simp only [bind, Except.bind]
  rw [foldlM_append_ok hforest, List.foldlM_cons, step, withChildren, closeTag_outermost]
  simp only [List.append_nil, List.reverse_reverse]
  rfl

theorem run_root_error {namespaceName : String} {cs : List Printed} {budget : Nat}
    (hns : blankedText namespaceName = namespaceName) (hxml : namespaceName ≠ xmlNamespace)
    (hxmlns : namespaceName ≠ xmlnsNamespace)
    (hp : (Printed.full name as cs).Forall PlainAttrs)
    (ha : ¬ (Printed.full name as cs).Forall AllResolvable)
    (ht : ts.map Token.mark = (Printed.full name (("xmlns", namespaceName) :: as) cs).marks) :
    ∃ e, run (budget + 1) ts start = .error e := by
  have hdefault : OnlyDefault (defaultScope namespaceName) := fun b hb => by
    rw [List.mem_singleton.mp hb]
  obtain ⟨us, vs, rfl, hus, hvs⟩ := exists_start ht
  obtain ⟨ws, xs, rfl, hws, -⟩ := List.map_eq_append_iff.mp hvs
  obtain ⟨position, ps, hps, e⟩ := @foldlM_root (run budget) name as us namespaceName hns hxml
    hxmlns hp.1.1 hus
  rw [run, foldlM_append_ok e, List.foldlM_cons, step]
  have hscope : (Reading.mk [] (some (⟨"", name⟩, position)) ps (defaultScope namespaceName)
      .outside [] []).scope = defaultScope namespaceName := by
    simp [scope, defaultScope]
  by_cases has : AllResolvable name as
  · have hcs : ¬ Printed.ForestForall AllResolvable cs := fun hcs => ha ⟨has, hcs⟩
    have hend := endTag_opened hps hp.1.2 has hscope
    obtain ⟨fault, hforest⟩ := @foldlM_forest_error (run budget) [] [] cs hp.2 hcs ws hws
      (⟨"", name⟩, position) ⟨⟨"", name⟩, defaultScope namespaceName, as.map attrOf, []⟩ hdefault []
    rw [hend]
    exact ⟨fault, foldlM_append_error xs hforest⟩
  · obtain ⟨fault, hend⟩ := endTag_error false hps hdefault has hscope
    exact ⟨fault, by rw [hend]; rfl⟩

end Reading

namespace Printed

/-- Reading the text of an element that binds the default namespace. -/
theorem read_printed {name namespaceName : String} {as : List (String × String)}
    {cs : List Printed} (hns : blankedText namespaceName = namespaceName)
    (hxml : namespaceName ≠ xmlNamespace) (hxmlns : namespaceName ≠ xmlnsNamespace)
    (hs : (full name (("xmlns", namespaceName) :: as) cs).Forall Spelled)
    (hv : (full name (("xmlns", namespaceName) :: as) cs).Forall AllScannable)
    (hp : (full name as cs).Forall PlainAttrs) (ha : (full name as cs).Forall AllResolvable) :
    read (String.ofList (full name (("xmlns", namespaceName) :: as) cs).text) =
      .ok ((full name as cs).tree (Reading.defaultScope namespaceName)) := by
  obtain ⟨ts, hts, hscan⟩ := document_printed hs hv
  obtain ⟨tag, hrun⟩ := @Reading.run_root name as ts namespaceName cs 10 hns hxml hxmlns hp ha hts
  have hmax : maxDepth = 10 + 1 := rfl
  simp only [read, String.toList_ofList, hscan, hmax, hrun, bind, Except.bind]
  rfl

theorem read_error_of_not_scannable {name : String} {as : List (String × String)}
    {cs : List Printed} (hs : (full name as cs).Forall Spelled)
    (hv : ¬ (full name as cs).Forall AllScannable) :
    ∃ e, read (String.ofList (full name as cs).text) = .error e := by
  obtain ⟨ts, e, hscan⟩ := document_error hs hv
  simp only [read, String.toList_ofList, hscan, bind, Except.bind]
  split
  · exact ⟨_, rfl⟩
  · exact ⟨e, rfl⟩

theorem read_error_of_not_resolvable {name namespaceName : String} {as : List (String × String)}
    {cs : List Printed} (hns : blankedText namespaceName = namespaceName)
    (hxml : namespaceName ≠ xmlNamespace) (hxmlns : namespaceName ≠ xmlnsNamespace)
    (hs : (full name (("xmlns", namespaceName) :: as) cs).Forall Spelled)
    (hv : (full name (("xmlns", namespaceName) :: as) cs).Forall AllScannable)
    (hp : (full name as cs).Forall PlainAttrs) (ha : ¬ (full name as cs).Forall AllResolvable) :
    ∃ e, read (String.ofList (full name (("xmlns", namespaceName) :: as) cs).text) = .error e := by
  obtain ⟨ts, hts, hscan⟩ := document_printed hs hv
  obtain ⟨e, hrun⟩ := @Reading.run_root_error name as ts namespaceName cs 10 hns hxml hxmlns hp ha
    hts
  have hmax : maxDepth = 10 + 1 := rfl
  exact ⟨e, by simp only [read, String.toList_ofList, hscan, hmax, hrun, bind, Except.bind]⟩

end Printed

end IconCompiler.Xml
