import IconCompiler.Proofs.Xml.Provenance
import Mathlib.Data.List.Forall2

/-!
Start tags as they are written. A tree has the namespaces of its attributes and not the qualifiers
that they were written with; these are in a transcript of the reading. The elements of a document
are those of its start tags, one by one and in order, and have the attributes of their tags with the
qualifiers resolved.
-/

namespace IconCompiler.Xml

/-- A start tag with all of its attributes, and the bindings in force in its element. -/
structure StartTag where
  name : QName
  bindings : List Binding
  attributes : List (QName × String)
  deriving DecidableEq

/-- A reading with what it has read of the attributes since the last tag, and with the start tags
that have ended. -/
structure Transcript where
  reading : Reading
  attributes : List (QName × String)
  tags : List StartTag

namespace Transcript

def start : Transcript := ⟨.start, [], []⟩

/-- The text of an attribute value that is read next. -/
def value (s : Transcript) (c : Cursor) : Except Error String :=
  (valueIn s.reading.entities maxDepth c s.reading.nesting).map fun x => String.ofList x.1

/-- Puts the entities in that a text refers to, `expand` transcribing the tokens of one. -/
def noteText (expand : List Token → Transcript → Except Error Transcript) :
    List Piece → Transcript → Except Error Transcript
  | [], s => .ok s
  | .plain _ :: ps, s => noteText expand ps s
  | .character _ _ :: ps, s => noteText expand ps s
  | .entity name position after :: ps, s => do
    let value ← s.reading.entities.find name position
    let nesting ← s.reading.nesting.enter after
    let scan := value.content
    let inner ← expand scan.tokens
      { s with reading := { s.reading with nesting := nesting, tag := none } }
    let _ ← scan.result
    noteText expand ps { inner with
      reading := { inner.reading with
        nesting := inner.reading.nesting.leave
        tag := s.reading.tag } }
  | .malformed position :: _, _ => .error (.located .malformedReference position)

/-- The transcript after one more token. -/
def step (expand : List Token → Transcript → Except Error Transcript) (s : Transcript) :
    Token → Except Error Transcript
  | .entity name value =>
    .ok { s with reading := { s.reading with entities := s.reading.entities ++ [(name, value)] } }
  | .tagStart name position =>
    .ok { s with reading := { s.reading with tag := some (name, position) } }
  | .attr name position value => do
    let text ← s.value value
    let r ← s.reading.noteAttr name position value
    pure { s with reading := r, attributes := s.attributes ++ [(name, text)] }
  | .tagEnd isEmpty => do
    let r ← s.reading.endTag isEmpty
    match s.reading.tag with
    | none => pure { s with reading := r }
    | some (name, _) => pure ⟨r, [], s.tags ++ [⟨name, s.reading.scope, s.attributes⟩]⟩
  | .close name position => do
    let r ← s.reading.closeTag name position
    pure { s with reading := r, attributes := [] }
  | .text content => noteText expand (pieces content) s

def run : Nat → List Token → Transcript → Except Error Transcript
  | 0, _, s => .ok s
  | budget + 1, ts, s => ts.foldlM (step (run budget)) s

end Transcript

/-- The start tags of a document, in order. -/
def startTags (text : String) : Except Error (List StartTag) :=
  (Transcript.run maxDepth (Cursor.ofText text.toList).document.tokens .start).map Transcript.tags

/-! ## A transcript is of the reading -/

namespace Transcript

variable {expand : List Token → Transcript → Except Error Transcript}
  {plainExpand : List Token → Reading → Except Error Reading}

/-- Whether a transcriber does what a reader does. -/
def Follows (expand : List Token → Transcript → Except Error Transcript)
    (plainExpand : List Token → Reading → Except Error Reading) : Prop :=
  ∀ ts s, (expand ts s).map reading = plainExpand ts s.reading

theorem reading_noteText (h : Follows expand plainExpand) (ps : List Piece) (s : Transcript) :
    (noteText expand ps s).map reading = Reading.noteText plainExpand ps s.reading := by
  induction ps generalizing s with
  | nil => rfl
  | cons p ps ih =>
    cases p with
    | plain c => exact ih s
    | character c position => exact ih s
    | malformed position => rfl
    | entity name position after =>
      rw [noteText, Reading.noteText]
      cases s.reading.entities.find name position with
      | error e => rfl
      | ok value =>
        cases s.reading.nesting.enter after with
        | error e => rfl
        | ok nesting =>
          -- both go on in the text of the entity, where they agree by assumption
          have hexpand := h value.content.tokens
            { s with reading := { s.reading with nesting := nesting, tag := none } }
          simp only [bind, Except.bind]
          rw [← hexpand]
          cases expand value.content.tokens
              { s with reading := { s.reading with nesting := nesting, tag := none } } with
          | error e => rfl
          | ok inner =>
            cases hresult : value.content.result with
            | error e => simp only [Except.map]
            | ok c =>
              simp only [Except.map]
              exact ih _

theorem reading_step (h : Follows expand plainExpand) (s : Transcript) (t : Token) :
    (step expand s t).map reading = Reading.step plainExpand s.reading t := by
  cases t with
  | entity name value => rfl
  | tagStart name position => rfl
  | attr name position value =>
    rw [step, Reading.step]
    cases hx : valueIn s.reading.entities maxDepth value s.reading.nesting with
    | error e =>
      have hvalue : s.value value = .error e := by
        rw [Transcript.value, hx]
        rfl
      have hnote : s.reading.noteAttr name position value = .error e := by
        rw [Reading.noteAttr, hx]
        rfl
      rw [hvalue, hnote]
      rfl
    | ok x =>
      have hvalue : s.value value = .ok (String.ofList x.1) := by
        rw [Transcript.value, hx]
        rfl
      rw [hvalue]
      cases s.reading.noteAttr name position value <;> rfl
  | tagEnd isEmpty =>
    rw [step, Reading.step]
    cases s.reading.endTag isEmpty with
    | error e => rfl
    | ok r => cases s.reading.tag <;> rfl
  | close name position =>
    rw [step, Reading.step]
    cases s.reading.closeTag name position <;> rfl
  | text content => exact reading_noteText h _ s

theorem follows_foldlM (h : Follows expand plainExpand) :
    Follows (fun ts s => ts.foldlM (step expand) s)
      fun ts r => ts.foldlM (Reading.step plainExpand) r := by
  intro ts
  induction ts with
  | nil => exact fun _ => rfl
  | cons t ts ih =>
    intro s
    dsimp only
    rw [List.foldlM_cons, List.foldlM_cons, ← reading_step h]
    cases step expand s t with
    | error e => rfl
    | ok s' => exact ih s'

theorem follows_run (budget : Nat) : Follows (run budget) (Reading.run budget) := by
  induction budget with
  | zero => exact fun _ _ => rfl
  | succ budget ih => exact follows_foldlM ih

end Transcript

/-! ## Elements in document order -/

mutual

/-- An element and those below it, in document order. -/
def Tree.elements : Tree → List Tree
  | .element name bs as cs => .element name bs as cs :: forestElements cs

def forestElements : List Tree → List Tree
  | [] => []
  | t :: ts => t.elements ++ forestElements ts

end

/-- An element without what is in it. -/
structure Head where
  name : QName
  bindings : List Binding
  attributes : List Attr

def Tree.head (t : Tree) : Head := ⟨t.name, t.bindings, t.attributes⟩

def Frame.head (f : Frame) : Head := ⟨f.name, f.bindings, f.attributes⟩

/-- The heads of closed elements and of those in them. -/
def forestHeads (ts : List Tree) : List Head := (forestElements ts).map Tree.head

theorem forestHeads_append (ts us : List Tree) :
    forestHeads (ts ++ us) = forestHeads ts ++ forestHeads us := by
  induction ts with
  | nil => rfl
  | cons t ts ih =>
    simp only [forestHeads, List.cons_append, forestElements, List.map_append,
      List.append_assoc] at ih ⊢
    rw [ih]

theorem forestHeads_singleton (t : Tree) : forestHeads [t] = t.elements.map Tree.head := by
  rw [forestHeads, forestElements, forestElements, List.append_nil]

namespace Frame

/-- The heads of an open element and of what has been closed in it. -/
def heads (f : Frame) : List Head := f.head :: forestHeads f.children.reverse

theorem heads_close (f : Frame) : forestHeads [f.close] = f.heads := by
  rw [forestHeads_singleton, close, Tree.elements, List.map_cons]
  rfl

end Frame

namespace Reading

variable {r r' : Reading}

/-- The heads of all elements that were read, in document order. -/
def heads (r : Reading) : List Head :=
  forestHeads r.roots.reverse ++ r.frames.reverse.flatMap Frame.heads

theorem heads_addTree (r : Reading) (t : Tree) :
    (r.addTree t).heads = r.heads ++ forestHeads [t] := by
  unfold addTree
  split
  · rename_i hframes
    simp only [heads, hframes, List.reverse_cons, List.reverse_nil, List.flatMap_nil,
      List.append_nil, forestHeads_append]
  · rename_i f fs hframes
    simp only [heads, hframes, List.reverse_cons, List.flatMap_append, List.flatMap_cons,
      List.flatMap_nil, List.append_nil, Frame.heads, forestHeads_append, Frame.head,
      List.append_assoc, List.cons_append]

theorem heads_open (r : Reading) (f : Frame) :
    { r with frames := f :: r.frames }.heads = r.heads ++ f.heads := by
  simp only [heads, List.reverse_cons, List.flatMap_append, List.flatMap_cons, List.flatMap_nil,
    List.append_nil, List.append_assoc]

/-- Closing the innermost element changes nothing of what was read. -/
theorem heads_close {f : Frame} {fs : List Frame} (h : r.frames = f :: fs) :
    ({ r with frames := fs }.addTree f.close).heads = r.heads := by
  have hopen := heads_open { r with frames := fs } f
  rw [heads_addTree, Frame.heads_close, ← hopen, ← h]

/-! ## What one token does -/

/-- What waits for its element. -/
def awaited (r : Reading) : List (QName × String) := r.attributes.map fun p => (p.name, p.value)

/-- An attribute waits for its element unless it declares a namespace. -/
theorem yields_noteAttr_awaited {cs : List Char} {nesting : Nesting} {value : Cursor}
    (h : valueIn r.entities maxDepth value r.nesting = .ok (cs, nesting)) (name : QName)
    (position : Position) :
    Yields (r.noteAttr name position value) fun r' => r'.heads = r.heads ∧
      r'.awaited = r.awaited ++ if name.Declares then [] else [(name, String.ofList cs)] := by
  intro r' hr'
  obtain ⟨ds, nesting', hvalue, hcases⟩ := noteAttr_cases hr'
  obtain ⟨rfl, -⟩ := Prod.mk.inj (Except.ok.inj (hvalue.symm.trans h))
  rcases hcases with ⟨hdeclares, bs, -, rfl⟩ | ⟨hwaits, rfl⟩
  · rw [if_pos hdeclares, List.append_nil]
    exact ⟨rfl, rfl⟩
  · rw [if_neg hwaits]
    exact ⟨rfl, List.map_append ..⟩

theorem attributes_addTree (r : Reading) (t : Tree) : (r.addTree t).attributes = r.attributes := by
  unfold addTree
  split <;> rfl

/-- The end of a start tag opens an element, or makes one that is closed at once. -/
theorem yields_endTag_heads {name : QName} {position : Position}
    (h : r.tag = some (name, position)) (isEmpty : Bool) :
    Yields (r.endTag isEmpty) fun r' => ∃ as, resolveAttrs r.scope [] r.attributes = .ok as ∧
      r'.heads = r.heads ++ [⟨name, r.scope, as⟩] ∧ r'.attributes = [] := by
  intro r' hr'
  rcases endTag_cases hr' with ⟨hnone, -⟩ | ⟨name', position', as, htag, has, rfl⟩
  · rw [hnone] at h
    contradiction
  · obtain ⟨rfl, -⟩ := Prod.mk.inj (Option.some.inj (htag.symm.trans h))
    refine ⟨as, has, ?_⟩
    cases isEmpty with
    | true => exact ⟨heads_addTree r.settled _, attributes_addTree _ _⟩
    | false => exact ⟨heads_open r ⟨name', r.scope, as, []⟩, rfl⟩

/-- An end tag drops what waits, and reads nothing. -/
theorem yields_closeTag_heads (r : Reading) (name : QName) (position : Position) :
    Yields (r.closeTag name position) fun r' => r'.heads = r.heads ∧ r'.attributes = [] := by
  intro r' hr'
  rcases closeTag_cases hr' with ⟨-, rfl⟩ | ⟨f, fs, hframes, -, rfl⟩
  · exact ⟨rfl, rfl⟩
  · exact ⟨heads_close (r := r.settled) hframes, attributes_addTree _ _⟩

end Reading

/-! ## Heads and start tags -/

/-- The attribute that is meant by a name and a value where these bindings are in force. -/
def Means (bs : List Binding) (a : QName × String) (b : Attr) : Prop :=
  ∃ position, Reading.attrNamespace bs ⟨a.1, position, a.2⟩ = .ok b.namespaceName ∧
    b.localPart = a.1.localPart ∧ b.value = a.2

/-- The head of the element that a start tag opens. It has the attributes of the tag that declare
no namespace. -/
structure Opens (tag : StartTag) (h : Head) : Prop where
  name : h.name = tag.name
  bindings : h.bindings = tag.bindings
  isProper_bindings : ∀ b ∈ tag.bindings, b.IsProper
  isProper_names : ∀ a ∈ tag.attributes, a.1.IsProper
  attributes : List.Forall₂ (Means tag.bindings)
    (tag.attributes.filter fun a => ¬ a.1.Declares) h.attributes

/-- Attributes are resolved one by one. -/
theorem yields_resolveAttrs_means (bs : List Binding) (resolved : List Attr) (ps : List Pending) :
    Yields (Reading.resolveAttrs bs resolved ps) fun as => ∃ added, as = resolved ++ added ∧
      List.Forall₂ (fun p a => Means bs (p.name, p.value) a) ps added := by
  induction ps generalizing resolved with
  | nil => exact Yields.ok ⟨[], (List.append_nil resolved).symm, .nil⟩
  | cons p ps ih =>
    refine Yields.bind (Yields.self _) fun namespaceName hp => ?_
    split
    · exact Yields.error _
    · intro as has
      obtain ⟨added, rfl, hadded⟩ := ih _ as has
      exact ⟨⟨namespaceName, p.name.localPart, p.value⟩ :: added, List.append_assoc ..,
        .cons ⟨p.position, hp, rfl, rfl⟩ hadded⟩

namespace Transcript

/-- The start tags that have ended open the elements that were read, and what has been read of the
next one waits in the reading. -/
structure Sound (s : Transcript) : Prop where
  isProper : s.reading.IsProper
  names : ∀ a ∈ s.attributes, a.1.IsProper
  awaited : s.reading.awaited = s.attributes.filter fun a => ¬ a.1.Declares
  tags : List.Forall₂ Opens s.tags s.reading.heads

theorem sound_start : start.Sound :=
  ⟨Reading.isProper_start, by simp [start], rfl, .nil⟩

variable {s : Transcript}

/-- Only what waits, what is open and what is closed counts. -/
theorem Sound.revise (h : s.Sound) (entities : Entities) (tag : Option (QName × Position))
    (nesting : Nesting) :
    { s with reading :=
      { s.reading with entities := entities, tag := tag, nesting := nesting } }.Sound :=
  ⟨⟨h.isProper.attributes, h.isProper.bindings, h.isProper.frames, h.isProper.roots⟩, h.names,
    h.awaited, h.tags⟩

/-- What a transcriber of tokens has to keep. -/
def KeepsSound (expand : List Token → Transcript → Except Error Transcript) : Prop :=
  ∀ ts s, (∀ t ∈ ts, Token.IsProper t) → s.Sound → Yields (expand ts s) Sound

theorem yields_noteText (he : KeepsSound expand) (ps : List Piece) (h : s.Sound) :
    Yields (noteText expand ps s) Sound := by
  induction ps generalizing s with
  | nil => exact Yields.ok h
  | cons p ps ih =>
    cases p with
    | plain c => exact ih h
    | character c position => exact ih h
    | malformed position => exact Yields.error _
    | entity name position after =>
      refine Yields.bind (Yields.any _) fun value _ => ?_
      refine Yields.bind (Yields.any _) fun nesting _ => ?_
      -- the text of an entity is content again, and is transcribed by what is given
      refine Yields.bind (he _ _ (Cursor.content_isProper value) (h.revise _ none nesting))
        fun inner hinner => ?_
      refine Yields.bind (Yields.any _) fun _ _ => ?_
      exact ih (hinner.revise _ _ _)

theorem exists_of_value {value : Cursor} {text : String} (h : s.value value = .ok text) :
    ∃ cs nesting, valueIn s.reading.entities maxDepth value s.reading.nesting =
      .ok (cs, nesting) ∧ String.ofList cs = text := by
  rw [Transcript.value] at h
  cases hx : valueIn s.reading.entities maxDepth value s.reading.nesting with
  | error e =>
    rw [hx] at h
    contradiction
  | ok x =>
    rw [hx] at h
    exact ⟨x.1, x.2, rfl, Except.ok.inj h⟩

theorem yields_attr (h : s.Sound) {name : QName} (hn : name.IsProper) (position : Position)
    (value : Cursor) : Yields (step expand s (.attr name position value)) Sound := by
  refine Yields.bind (Yields.self _) fun text htext => ?_
  refine Yields.bind (Yields.self _) fun r hr => ?_
  obtain ⟨cs, nesting, hcs, rfl⟩ := exists_of_value htext
  obtain ⟨hheads, hawaited⟩ := Reading.yields_noteAttr_awaited hcs name position r hr
  refine Yields.ok ⟨Reading.yields_noteAttr h.isProper hn position value r hr, ?_, ?_, ?_⟩
  · intro a ha
    rcases List.mem_append.mp ha with ha | ha
    · exact h.names a ha
    · rw [List.mem_singleton.mp ha]
      exact hn
  · rw [hawaited, h.awaited, List.filter_append]
    by_cases hd : name.Declares <;> simp [hd]
  · rw [hheads]
    exact h.tags

theorem yields_tagEnd (h : s.Sound) (isEmpty : Bool) :
    Yields (step expand s (.tagEnd isEmpty)) Sound := by
  refine Yields.bind (Yields.self _) fun r hr => ?_
  have hproper := Reading.yields_endTag h.isProper isEmpty r hr
  split
  · rename_i htag
    -- no element is started, and the reading stays as it is
    rw [Reading.endTag, htag] at hr
    rw [← Except.ok.inj hr]
    exact Yields.ok h
  · rename_i name position htag
    obtain ⟨as, has, hheads, hempty⟩ := Reading.yields_endTag_heads htag isEmpty r hr
    obtain ⟨added, hadded, hmeans⟩ := yields_resolveAttrs_means _ _ _ as has
    rw [List.nil_append] at hadded
    refine Yields.ok ⟨hproper, by simp, ?_, ?_⟩
    · rw [Reading.awaited, hempty]
      rfl
    · rw [hheads]
      refine List.rel_append h.tags (.cons ?_ .nil)
      refine ⟨rfl, rfl, h.isProper.scope, h.names, ?_⟩
      rw [← h.awaited, hadded]
      exact List.forall₂_map_left_iff.mpr hmeans

theorem yields_close (h : s.Sound) (name : QName) (position : Position) :
    Yields (step expand s (.close name position)) Sound := by
  refine Yields.bind (Yields.self _) fun r hr => ?_
  obtain ⟨hheads, hempty⟩ := Reading.yields_closeTag_heads _ name position r hr
  refine Yields.ok ⟨Reading.yields_closeTag h.isProper name position r hr, by simp, ?_, ?_⟩
  · rw [Reading.awaited, hempty]
    rfl
  · rw [hheads]
    exact h.tags

/-- One token keeps the start tags and the elements side by side. -/
theorem yields_step (he : KeepsSound expand) (h : s.Sound) {t : Token} (ht : t.IsProper) :
    Yields (step expand s t) Sound := by
  cases t with
  | entity name value => exact Yields.ok (h.revise _ _ _)
  | tagStart name position => exact Yields.ok (h.revise _ _ _)
  | attr name position value => exact yields_attr h ht position value
  | tagEnd isEmpty => exact yields_tagEnd h isEmpty
  | close name position => exact yields_close h name position
  | text content => exact yields_noteText he _ h

theorem keepsSound_foldlM (he : KeepsSound expand) :
    KeepsSound fun ts s => ts.foldlM (step expand) s := by
  intro ts
  induction ts with
  | nil => exact fun s _ h => Yields.ok h
  | cons t ts ih =>
    intro s hts h
    rw [List.forall_mem_cons] at hts
    dsimp only
    rw [List.foldlM_cons]
    exact Yields.bind (yields_step he h hts.1) fun s' h' => ih s' hts.2 h'

theorem keepsSound_run (budget : Nat) : KeepsSound (run budget) := by
  induction budget with
  | zero => exact fun _ _ _ h => Yields.ok h
  | succ budget ih => exact keepsSound_foldlM ih

end Transcript

/-! ## Documents -/

theorem heads_of_root {r : Reading} {t : Tree} (hframes : r.frames = [])
    (hroots : r.roots.getLast? = some t) :
    r.heads = t.elements.map Tree.head ++ forestHeads r.roots.dropLast.reverse := by
  have hreverse : r.roots.reverse = [t] ++ r.roots.dropLast.reverse := by
    conv_lhs => rw [← List.dropLast_append_getLast? t hroots]
    exact List.reverse_append
  rw [Reading.heads, hframes, List.reverse_nil, List.flatMap_nil, List.append_nil, hreverse,
    forestHeads_append, forestHeads_singleton]

/-- The elements of a document are those of its start tags. Behind these there may be start tags
of elements that stand beside the root, in the text of an entity. -/
theorem exists_startTags {text : String} {t : Tree} (h : read text = .ok t) :
    ∃ tags rest, startTags text = .ok (tags ++ rest) ∧
      List.Forall₂ (fun tag e => Opens tag e.head) tags t.elements := by
  obtain ⟨r, hr, hframes, hroots⟩ := yields_read_root text t h
  have hfollows := Transcript.follows_run maxDepth (Cursor.ofText text.toList).document.tokens
    .start
  rw [show Transcript.start.reading = .start from rfl, hr] at hfollows
  cases hrun : Transcript.run maxDepth (Cursor.ofText text.toList).document.tokens .start with
  | error e =>
    rw [hrun] at hfollows
    contradiction
  | ok s =>
    have hsound := Transcript.keepsSound_run maxDepth _ .start (Cursor.document_isProper _)
      Transcript.sound_start s hrun
    rw [hrun] at hfollows
    have htags := hsound.tags
    rw [Except.ok.inj hfollows, heads_of_root hframes hroots] at htags
    refine ⟨_, s.tags.drop (t.elements.map Tree.head).length, ?_,
      List.forall₂_map_right_iff.mp (List.forall₂_take_append _ _ _ htags)⟩
    rw [startTags, hrun, List.take_append_drop]
    rfl

end IconCompiler.Xml
