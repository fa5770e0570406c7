import IconCompiler.Proofs.Xml.Names
import IconCompiler.Proofs.Xml.Printed
import IconCompiler.Proofs.Xml.Reading

/-!
Where the names in a tree come from. Every attribute of a tree that was read has a name that was
split, and every binding has a qualifier that was.
-/

namespace IconCompiler.Xml

/-- A token that is no attribute, or one whose name was split. -/
def Token.IsProper : Token → Prop
  | .attr name _ _ => name.IsProper
  | _ => True

/-! ## Tokens -/

namespace Scan

variable {α β : Type}

def IsProper (s : Scan α) : Prop := ∀ t ∈ s.tokens, t.IsProper

theorem IsProper.lift (r : Except Error α) : (Scan.lift r).IsProper := by
  intro t ht
  contradiction

theorem IsProper.pure (a : α) : (Pure.pure a : Scan α).IsProper := by
  intro t ht
  contradiction

theorem IsProper.emit {t : Token} (h : t.IsProper) : (Scan.emit t).IsProper := by
  intro u hu
  rw [List.mem_singleton.mp hu]
  exact h

theorem IsProper.bind {s : Scan α} {f : α → Scan β} (hs : s.IsProper)
    (hf : ∀ a, s.result = .ok a → (f a).IsProper) : (s >>= f).IsProper := by
  intro t ht
  change t ∈ (Scan.bind s f).tokens at ht
  unfold Scan.bind at ht
  split at ht
  · rename_i a ha
    rcases List.mem_append.mp ht with ht | ht
    · exact hs t ht
    · exact hf a ha t ht
  · exact hs t ht

theorem IsProper.ite_bind {p : Prop} [Decidable p] {s u : Scan α} {f : α → Scan β}
    (hs : s.IsProper) (hu : u.IsProper) (hf : ∀ a, (f a).IsProper) :
    (if p then s >>= f else u >>= f).IsProper := by
  split
  · exact IsProper.bind hs fun a _ => hf a
  · exact IsProper.bind hu fun a _ => hf a

theorem IsProper.lift_bind {r : Except Error α} {f : α → Scan β}
    (hf : ∀ a, r = .ok a → (f a).IsProper) : ((liftM r : Scan α) >>= f).IsProper :=
  IsProper.bind (IsProper.lift r) hf

end Scan

namespace Cursor

open Scan

theorem isProper_of_expectQName {c c' : Cursor} {n : QName} (h : c.expectQName = .ok (n, c')) :
    n.IsProper := by
  have hrun : ∀ y ∈ (c.span isNameChar).1, isNameChar y = true := by
    intro y hy
    rw [span_fst] at hy
    exact List.mem_takeWhile_imp hy
  rw [expectQName] at h
  dsimp only at h
  cases hsplit : splitName? (c.span isNameChar).1 with
  | none =>
    rw [hsplit] at h
    contradiction
  | some m =>
    rw [hsplit] at h
    obtain ⟨rfl, -⟩ := Prod.mk.inj (Except.ok.inj h)
    exact (of_splitName? hrun hsplit).1

theorem attrRest_isProper {fuel : Nat} (h : ∀ c, (tagRest fuel c).IsProper) (here : Cursor) :
    (attrRest fuel here).IsProper := by
  refine IsProper.lift_bind fun ⟨name, c₁⟩ hname => ?_
  apply IsProper.lift_bind
  intro c₂ _
  refine IsProper.lift_bind fun ⟨quote, c₃⟩ _ => ?_
  refine IsProper.lift_bind fun ⟨value, c₄⟩ _ => ?_
  exact IsProper.bind (IsProper.emit (isProper_of_expectQName hname)) fun _ _ => h c₄

theorem tagRest_isProper (fuel : Nat) (c : Cursor) : (tagRest fuel c).IsProper := by
  induction fuel generalizing c with
  | zero => exact IsProper.pure _
  | succ fuel ih =>
    rw [tagRest]
    split
    · exact IsProper.pure _
    · apply IsProper.lift_bind
      intro x hx
      split
      · apply IsProper.lift_bind
        intro after hafter
        exact IsProper.bind (IsProper.emit trivial) fun _ _ => IsProper.pure _
      · split
        · exact IsProper.bind (IsProper.emit trivial) fun _ _ => IsProper.pure _
        · have hattr := attrRest_isProper ih
          dsimp only
          split
          · exact IsProper.bind (IsProper.pure _) fun here _ => hattr here
          · exact IsProper.lift_bind fun here _ => hattr here

theorem startTag_isProper (c : Cursor) : c.startTag.IsProper := by
  refine IsProper.lift_bind fun ⟨name, after⟩ _ => ?_
  dsimp only
  split
  · apply IsProper.lift_bind
    intro _ _
    exact IsProper.bind (IsProper.emit trivial) fun _ _ => tagRest_isProper _ after
  · exact IsProper.bind (IsProper.emit trivial) fun _ _ => tagRest_isProper _ after

theorem closeTag_isProper (c : Cursor) : c.closeTag.IsProper := by
  refine IsProper.lift_bind fun ⟨name, after⟩ _ => ?_
  apply IsProper.lift_bind
  intro after _
  exact IsProper.bind (IsProper.emit trivial) fun _ _ => IsProper.pure after

theorem textRun_isProper (c : Cursor) : c.textRun.IsProper := by
  refine IsProper.lift_bind fun ⟨run, after⟩ _ => ?_
  dsimp only
  split
  · apply IsProper.lift_bind
    intro _ _
    exact IsProper.bind (IsProper.emit trivial) fun _ _ => IsProper.pure after
  · exact IsProper.bind (IsProper.emit trivial) fun _ _ => IsProper.pure after

theorem contentRest_isProper (fuel level : Nat) (c : Cursor) :
    (contentRest fuel level c).IsProper := by
  induction fuel generalizing level c with
  | zero => exact IsProper.pure c
  | succ fuel ih =>
    -- one case for each thing that content can begin with
    rw [contentRest]
    split
    · exact IsProper.pure c
    · split
      · dsimp only
        split
        · exact IsProper.lift_bind fun c _ => ih level c
        · exact IsProper.ite_bind (IsProper.lift _) (IsProper.lift _) (ih level)
      · split
        · exact IsProper.lift_bind fun c _ => ih level c
        · split
          · apply IsProper.bind (closeTag_isProper c)
            intro c _
            split
            · exact IsProper.pure c
            · exact ih (level - 1) c
          · split
            · exact IsProper.lift _
            · split
              · apply IsProper.bind (startTag_isProper c)
                intro r _
                obtain ⟨tagEnd, c⟩ := r
                cases tagEnd with
                | opened => exact ih (level + 1) c
                | empty => exact ih level c
                | cut => exact ih level c
              · exact IsProper.bind (textRun_isProper c) fun c _ => ih level c

theorem content_isProper (c : Cursor) : c.content.IsProper := contentRest_isProper _ 0 c

theorem entityDefinition_isProper (name : String) (isParameter : Bool) (c : Cursor) :
    (entityDefinition name isParameter c).IsProper := by
  apply IsProper.lift_bind
  intro x _
  dsimp only
  split
  · apply IsProper.lift_bind
    intro after _
    exact IsProper.bind (IsProper.emit trivial) fun _ _ => IsProper.pure after
  · split
    · apply IsProper.lift_bind
      intro after? _
      cases after? with
      | none => exact IsProper.lift _
      | some after =>
        dsimp only
        split
        · exact IsProper.pure after
        · split
          · apply IsProper.lift_bind
            intro c _
            exact IsProper.lift_bind fun _ _ => IsProper.pure _
          · exact IsProper.pure _
    · exact IsProper.lift _

theorem entityDeclaration_isProper (c : Cursor) : c.entityDeclaration.IsProper := by
  apply IsProper.lift_bind
  intro c _
  refine IsProper.ite_bind (IsProper.lift _) (IsProper.pure c) fun c₁ => ?_
  refine IsProper.lift_bind fun ⟨name, c₂⟩ _ => ?_
  apply IsProper.lift_bind
  intro c₃ _
  exact IsProper.bind (entityDefinition_isProper _ _ c₃) fun _ _ => IsProper.lift _

theorem doctypeRest_isProper (start : Position) (fuel : Nat) (c : Cursor) :
    (doctypeRest start fuel c).IsProper := by
  induction fuel generalizing c with
  | zero => exact IsProper.pure c
  | succ fuel ih =>
    rw [doctypeRest]
    dsimp only
    split
    · exact IsProper.pure c
    · split
      · exact IsProper.bind (entityDeclaration_isProper _) fun c _ => ih c
      · split
        · exact IsProper.lift_bind fun c _ => ih c
        · split
          · exact IsProper.lift_bind fun c _ => ih c
          · split
            · apply IsProper.lift_bind
              intro x _
              split
              · exact IsProper.pure _
              · exact IsProper.lift _
            · split
              · split
                · exact IsProper.lift _
                · exact ih _
              · exact IsProper.lift _

theorem doctype_isProper (c : Cursor) : c.doctype.IsProper := by
  apply IsProper.lift_bind
  intro c₁ _
  refine IsProper.lift_bind fun ⟨_, c₂⟩ _ => ?_
  apply IsProper.lift_bind
  intro after? _
  apply IsProper.lift_bind
  intro x _
  have hrest : ∀ c₃ : Cursor, ((if x = '>' then pure (c₃.skip 1)
      else doctypeRest c.position (c₃.rest.length + 1) (c₃.skip 1)) : Scan Cursor).IsProper := by
    intro c₃
    split
    · exact IsProper.pure _
    · exact doctypeRest_isProper _ _ _
  dsimp only
  split
  · exact IsProper.lift_bind fun _ _ => hrest _
  · exact hrest _

theorem documentEnd_isProper (c : Cursor) : ((do
    let c ← c.misc
    if c.rest.isEmpty then pure () else Scan.lift (c.fail .unknownToken)) :
      Scan Unit).IsProper := by
  apply IsProper.lift_bind
  intro c _
  split
  · exact IsProper.pure ()
  · exact IsProper.lift _

theorem documentAfter_isProper (r : TagEnd × Cursor) : (Printed.documentAfter r).IsProper := by
  obtain ⟨tagEnd, c⟩ := r
  cases tagEnd with
  | opened => exact IsProper.bind (content_isProper c) fun c _ => documentEnd_isProper c
  | empty => exact IsProper.bind (IsProper.pure c) fun c _ => documentEnd_isProper c
  | cut => exact IsProper.bind (IsProper.pure c) fun c _ => documentEnd_isProper c

theorem document_isProper (c : Cursor) : c.document.IsProper := by
  have hroot : ∀ c : Cursor, (if c.startsWith "<" then c.startTag >>= Printed.documentAfter
      else Printed.documentAfter (.cut, c)).IsProper := by
    intro c
    split
    · exact IsProper.bind (startTag_isProper c) fun r _ => documentAfter_isProper r
    · exact documentAfter_isProper _
  refine IsProper.ite_bind (IsProper.lift _) (IsProper.pure _) fun c₁ => ?_
  apply IsProper.lift_bind
  intro c₂ _
  dsimp only
  split
  · apply IsProper.bind (doctype_isProper _)
    intro c₃ _
    exact IsProper.lift_bind fun c₄ _ => hroot c₄.spaces
  · exact IsProper.bind (IsProper.pure _) fun c₃ _ => hroot c₃.spaces

end Cursor

/-! ## Trees -/

/-- A binding of the default namespace, or of a qualifier that was split off a name. -/
def Binding.IsProper (b : Binding) : Prop := b.qualifier = "" ∨ IsPart b.qualifier.toList

structure Attr.IsProper (a : Attr) : Prop where
  localPart : IsPart a.localPart.toList
  undeclared : a.localPart ≠ "xmlns"

mutual

/-- Every attribute and every binding in a tree is proper. -/
def Tree.IsProper : Tree → Prop
  | .element _ bs as cs => (∀ b ∈ bs, b.IsProper) ∧ (∀ a ∈ as, a.IsProper) ∧ ForestIsProper cs

def ForestIsProper : List Tree → Prop
  | [] => True
  | t :: ts => t.IsProper ∧ ForestIsProper ts

end

theorem forestIsProper_iff (ts : List Tree) : ForestIsProper ts ↔ ∀ t ∈ ts, t.IsProper := by
  induction ts with
  | nil => exact iff_of_true trivial (by simp)
  | cons t ts ih => rw [ForestIsProper, ih, List.forall_mem_cons]

structure Pending.IsProper (p : Pending) : Prop where
  name : p.name.IsProper
  undeclared : p.name.localPart ≠ "xmlns"

structure Frame.IsProper (f : Frame) : Prop where
  bindings : ∀ b ∈ f.bindings, b.IsProper
  attributes : ∀ a ∈ f.attributes, a.IsProper
  children : ∀ t ∈ f.children, t.IsProper

theorem Frame.IsProper.close {f : Frame} (h : f.IsProper) : f.close.IsProper := by
  refine ⟨h.bindings, h.attributes, ?_⟩
  rw [forestIsProper_iff]
  exact fun t ht => h.children t (List.mem_reverse.mp ht)

/-! ## Reading -/

namespace Reading

/-- Whatever waits, is open or is closed has names that were split. -/
structure IsProper (r : Reading) : Prop where
  attributes : ∀ p ∈ r.attributes, p.IsProper
  bindings : ∀ b ∈ r.bindings, b.IsProper
  frames : ∀ f ∈ r.frames, f.IsProper
  roots : ∀ t ∈ r.roots, t.IsProper

variable {r : Reading}

theorem isProper_start : start.IsProper := by
  constructor <;> simp [start]

theorem IsProper.addTree (h : r.IsProper) {t : Tree} (ht : t.IsProper) :
    (r.addTree t).IsProper := by
  unfold Reading.addTree
  split
  · exact ⟨h.attributes, h.bindings, h.frames, List.forall_mem_cons.mpr ⟨ht, h.roots⟩⟩
  · rename_i f fs hframes
    have hf := h.frames f (by rw [hframes]; exact List.mem_cons_self)
    refine ⟨h.attributes, h.bindings, ?_, h.roots⟩
    intro g hg
    rcases List.mem_cons.mp hg with rfl | hg
    · exact ⟨hf.bindings, hf.attributes, List.forall_mem_cons.mpr ⟨ht, hf.children⟩⟩
    · exact h.frames g (by rw [hframes]; exact List.mem_cons_of_mem f hg)

/-- An attribute binds what was split off its name, or waits under its name. -/
theorem yields_noteAttr (h : r.IsProper) {name : QName} (hn : name.IsProper)
    (position : Position) (value : Cursor) :
    Yields (r.noteAttr name position value) IsProper := by
  intro r' hr'
  obtain ⟨cs, nesting, -, ⟨-, bs, hbs, rfl⟩ | ⟨hwaits, rfl⟩⟩ := noteAttr_cases hr'
  · refine ⟨h.attributes, fun b hb => ?_, h.frames, h.roots⟩
    rcases List.mem_append.mp hb with hb | hb
    · exact h.bindings b hb
    · rcases hbs b hb with hempty | hlocal
      · exact Or.inl hempty
      · exact Or.inr (hlocal ▸ hn.localPart)
  · refine ⟨fun p hp => ?_, h.bindings, h.frames, h.roots⟩
    rcases List.mem_append.mp hp with hp | hp
    · exact h.attributes p hp
    · rw [List.mem_singleton.mp hp]
      exact ⟨hn, (not_or.mp hwaits).2⟩

theorem IsProper.scope (h : r.IsProper) : ∀ b ∈ r.scope, b.IsProper := by
  have houter : ∀ b ∈ (r.frames.head?.map (·.bindings)).getD [], b.IsProper := by
    cases hframes : r.frames with
    | nil => simp
    | cons f fs =>
      have hf := h.frames f (by rw [hframes]; exact List.mem_cons_self)
      exact hf.bindings
  intro b hb
  unfold Reading.scope at hb
  dsimp only at hb
  split at hb
  · exact houter b hb
  · rcases List.mem_append.mp hb with hb | hb
    · exact h.bindings b hb
    · exact houter b (List.mem_filter.mp hb).1

theorem yields_resolveAttrs (scope : List Binding) {resolved : List Attr} {ps : List Pending}
    (hresolved : ∀ a ∈ resolved, a.IsProper) (hps : ∀ p ∈ ps, p.IsProper) :
    Yields (resolveAttrs scope resolved ps) fun as => ∀ a ∈ as, a.IsProper := by
  induction ps generalizing resolved with
  | nil => exact Yields.ok hresolved
  | cons p ps ih =>
    have hp := hps p List.mem_cons_self
    refine Yields.bind (Yields.any _) fun namespaceName _ => ?_
    split
    · exact Yields.error _
    · refine ih ?_ fun q hq => hps q (List.mem_cons_of_mem p hq)
      intro a ha
      rcases List.mem_append.mp ha with ha | ha
      · exact hresolved a ha
      · rw [List.mem_singleton.mp ha]
        exact ⟨hp.name.localPart, hp.undeclared⟩

theorem IsProper.settled (h : r.IsProper) : r.settled.IsProper :=
  ⟨by simp [Reading.settled], by simp [Reading.settled], h.frames, h.roots⟩

theorem yields_endTag (h : r.IsProper) (isEmpty : Bool) : Yields (r.endTag isEmpty) IsProper := by
  intro r' hr'
  rcases endTag_cases hr' with ⟨-, rfl⟩ | ⟨name, position, as, -, has, rfl⟩
  · exact h
  · have hattributes := yields_resolveAttrs r.scope (by simp) h.attributes as has
    cases isEmpty with
    | true => exact h.settled.addTree ⟨h.scope, hattributes, trivial⟩
    | false =>
      exact ⟨h.settled.attributes, h.settled.bindings,
        List.forall_mem_cons.mpr ⟨⟨h.scope, hattributes, by simp⟩, h.frames⟩, h.roots⟩

theorem yields_closeTag (h : r.IsProper) (name : QName) (position : Position) :
    Yields (r.closeTag name position) IsProper := by
  intro r' hr'
  rcases closeTag_cases hr' with ⟨-, rfl⟩ | ⟨f, fs, hframes, -, rfl⟩
  · exact h.settled
  · have hf := h.frames
    rw [hframes, List.forall_mem_cons] at hf
    have hrest : { r.settled with frames := fs }.IsProper :=
      ⟨h.settled.attributes, h.settled.bindings, hf.2, h.roots⟩
    exact hrest.addTree hf.1.close

/-- What a reader of tokens has to keep. -/
def Keeps (expand : List Token → Reading → Except Error Reading) : Prop :=
  ∀ ts r, (∀ t ∈ ts, Token.IsProper t) → r.IsProper → Yields (expand ts r) IsProper

variable {expand : List Token → Reading → Except Error Reading}

theorem yields_noteText (he : Keeps expand) (ps : List Piece) (h : r.IsProper) :
    Yields (noteText expand ps r) IsProper := by
  induction ps generalizing r with
  | nil => exact Yields.ok h
  | cons p ps ih =>
    cases p with
    | plain c => exact ih h
    | character c position => exact ih h
    | malformed position => exact Yields.error _
    | entity name position after =>
      refine Yields.bind (Yields.any _) fun value _ => ?_
      refine Yields.bind (Yields.any _) fun nesting _ => ?_
      -- the text of an entity is content again, and is read by the reader that is given
      refine Yields.bind (he _ _ (Cursor.content_isProper value)
        ⟨h.attributes, h.bindings, h.frames, h.roots⟩) fun inner hinner => ?_
      refine Yields.bind (Yields.any _) fun _ _ => ?_
      exact ih ⟨hinner.attributes, hinner.bindings, hinner.frames, hinner.roots⟩

/-- One token adds nothing whose name was not split. -/
theorem yields_step (he : Keeps expand) (h : r.IsProper) {t : Token} (ht : t.IsProper) :
    Yields (step expand r t) IsProper := by
  cases t with
  | entity name value => exact Yields.ok ⟨h.attributes, h.bindings, h.frames, h.roots⟩
  | tagStart name position => exact Yields.ok ⟨h.attributes, h.bindings, h.frames, h.roots⟩
  | attr name position value => exact yields_noteAttr h ht position value
  | tagEnd isEmpty => exact yields_endTag h isEmpty
  | close name position => exact yields_closeTag h name position
  | text content => exact yields_noteText he _ h

theorem keeps_foldlM (he : Keeps expand) : Keeps fun ts r => ts.foldlM (step expand) r := by
  intro ts
  induction ts with
  | nil => exact fun r _ h => Yields.ok h
  | cons t ts ih =>
    intro r hts h
    rw [List.forall_mem_cons] at hts
    dsimp only
    rw [List.foldlM_cons]
    exact Yields.bind (yields_step he h hts.1) fun r' h' => ih r' hts.2 h'

theorem keeps_run (budget : Nat) : Keeps (run budget) := by
  induction budget with
  | zero => exact fun _ _ _ h => Yields.ok h
  | succ budget ih => exact keeps_foldlM ih

end Reading

/-- Every attribute of a tree that was read has a name that was split. -/
theorem yields_read (text : String) : Yields (read text) Tree.IsProper := by
  intro t ht
  obtain ⟨r, hr, -, hroots⟩ := yields_read_root text t ht
  have hproper := Reading.keeps_run maxDepth _ _ (Cursor.document_isProper _)
    Reading.isProper_start r hr
  exact hproper.roots t (List.mem_of_getLast? hroots)

end IconCompiler.Xml
