import IconCompiler.Proofs.Xml.StartTag

/-!
How the elements of a document lie inside each other. The tags decide it by the local parts of their
names: texts, comments, processing instructions, attributes and qualifiers have no say, except for
the entities that a text refers to, whose tags stand in its place.
-/

namespace IconCompiler.Xml

/-- A tag by the local part of its name. An end tag needs none, since it can only end the innermost
element. -/
inductive Tag where
  | opening (name : String)
  | empty (name : String)
  | closing
  deriving DecidableEq

/-! ## The tags of a text -/

/-- Tags that have ended, with the entities declared so far and the start tag that has not ended. -/
structure Tagging where
  entities : Entities
  pending : Option String
  tags : List Tag

namespace Tagging

def start : Tagging := ⟨[], none, []⟩

/-- The tags of the entities that a text refers to, `expand` noting those of one. -/
def noteText (expand : List Token → Tagging → Tagging) : List Piece → Tagging → Tagging
  | [], s => s
  | .entity name _ _ :: ps, s =>
    match s.entities.lookup name with
    | some value =>
      let inner := expand value.content.tokens { s with pending := none }
      noteText expand ps { inner with pending := s.pending }
    | none => noteText expand ps s
  | _ :: ps, s => noteText expand ps s

def noteEnd (s : Tagging) (isEmpty : Bool) : Tagging :=
  match s.pending with
  | none => s
  | some name => { s with tags := s.tags ++ [if isEmpty then .empty name else .opening name] }

def step (expand : List Token → Tagging → Tagging) (s : Tagging) : Token → Tagging
  | .entity name value => { s with entities := s.entities ++ [(name, value)] }
  | .tagStart name _ => { s with pending := some name.localPart }
  | .attr _ _ _ => s
  | .tagEnd isEmpty => s.noteEnd isEmpty
  | .close _ _ => { s with tags := s.tags ++ [.closing] }
  | .text content => noteText expand (pieces content) s

def run : Nat → List Token → Tagging → Tagging
  | 0, _, s => s
  | budget + 1, ts, s => ts.foldl (step (run budget)) s

end Tagging

/-- The tags of a document, in order. -/
def tags (text : String) : List Tag :=
  (Tagging.run maxDepth (Cursor.ofText text.toList).document.tokens .start).tags

/-! ## What tags build -/

/-- An element and those in it, by the local parts of their names. -/
inductive Shape where
  | element (name : String) (children : List Shape)

namespace Shape

def name : Shape → String
  | element n _ => n

def children : Shape → List Shape
  | element _ cs => cs

end Shape

mutual

def Tree.shape : Tree → Shape
  | .element name _ _ cs => .element name.localPart (forestShapes cs)

def forestShapes : List Tree → List Shape
  | [] => []
  | t :: ts => t.shape :: forestShapes ts

end

theorem forestShapes_eq_map (ts : List Tree) : forestShapes ts = ts.map Tree.shape := by
  induction ts with
  | nil => rfl
  | cons t ts ih => rw [forestShapes, ih, List.map_cons]

/-- Open elements from the innermost, and closed ones outside of them, children and closed elements
in reverse. -/
structure Layout where
  frames : List (String × List Shape)
  roots : List Shape

namespace Layout

def start : Layout := ⟨[], []⟩

/-- Adds a closed element to the one that holds it. -/
def add (l : Layout) (s : Shape) : Layout :=
  match l.frames with
  | [] => { l with roots := s :: l.roots }
  | f :: fs => { l with frames := (f.1, s :: f.2) :: fs }

def step (l : Layout) : Tag → Layout
  | .opening name => { l with frames := (name, []) :: l.frames }
  | .empty name => l.add (.element name [])
  | .closing =>
    match l.frames with
    | [] => l
    | f :: fs => { l with frames := fs }.add (.element f.1 f.2.reverse)

/-- The layout that tags build, one after the other. -/
def ofTags (ts : List Tag) : Layout := ts.foldl step start

theorem ofTags_append_singleton (ts : List Tag) (t : Tag) :
    ofTags (ts ++ [t]) = (ofTags ts).step t := by
  rw [ofTags, List.foldl_append]
  rfl

end Layout

/-! ## Reading builds what the tags build -/

namespace Reading

/-- What has been read, by the local parts of names. -/
def layout (r : Reading) : Layout :=
  ⟨r.frames.map fun f => (f.name.localPart, f.children.map Tree.shape), r.roots.map Tree.shape⟩

theorem layout_addTree (r : Reading) (t : Tree) :
    (r.addTree t).layout = r.layout.add t.shape := by
  unfold addTree
  split
  · rename_i hframes
    simp [layout, Layout.add, hframes]
  · rename_i f fs hframes
    simp [layout, Layout.add, hframes]

theorem shape_close (f : Frame) :
    f.close.shape = .element f.name.localPart (f.children.map Tree.shape).reverse := by
  rw [Frame.close, Tree.shape, forestShapes_eq_map, List.map_reverse]

/-- A reading has read what these tags build, and both wait for the end of the same tag. -/
structure Follows (r : Reading) (s : Tagging) : Prop where
  entities : r.entities = s.entities
  pending : r.tag.map (·.1.localPart) = s.pending
  layout : r.layout = .ofTags s.tags

theorem follows_start : start.Follows .start := ⟨rfl, rfl, rfl⟩

variable {r : Reading} {s : Tagging}

/-! ### One token -/

/-- An attribute has no say: it changes nothing but what waits for an element. -/
theorem yields_noteAttr_follows (h : r.Follows s) (name : QName) (position : Position)
    (value : Cursor) : Yields (r.noteAttr name position value) (Follows · s) := by
  intro r' hr'
  obtain ⟨cs, nesting, -, ⟨-, bs, -, rfl⟩ | ⟨-, rfl⟩⟩ := noteAttr_cases hr'
  · exact ⟨h.entities, h.pending, h.layout⟩
  · exact ⟨h.entities, h.pending, h.layout⟩

theorem follows_addTree (hentities : r.entities = s.entities)
    (hpending : r.tag.map (·.1.localPart) = s.pending) {t : Tree} {ts : List Tag}
    (hlayout : r.layout.add t.shape = .ofTags ts) :
    (r.addTree t).Follows { s with tags := ts } := by
  have hsame : (r.addTree t).entities = r.entities ∧ (r.addTree t).tag = r.tag := by
    unfold addTree
    split <;> exact ⟨rfl, rfl⟩
  refine ⟨hsame.1.trans hentities, ?_, (layout_addTree r t).trans hlayout⟩
  rw [hsame.2]
  exact hpending

/-- The end of a start tag opens an element, or makes one that is closed at once. -/
theorem yields_endTag_follows (h : r.Follows s) (isEmpty : Bool) :
    Yields (r.endTag isEmpty) (Follows · (s.noteEnd isEmpty)) := by
  intro r' hr'
  have hpending := h.pending
  rcases endTag_cases hr' with ⟨hnone, rfl⟩ | ⟨name, position, as, htag, -, rfl⟩
  · have hnoted : s.noteEnd isEmpty = s := by
      rw [hnone] at hpending
      rw [Tagging.noteEnd, ← hpending]
      rfl
    rw [hnoted]
    exact h
  · have hnoted : s.noteEnd isEmpty = { s with
        tags := s.tags ++ [if isEmpty then .empty name.localPart else .opening name.localPart] } := by
      rw [htag] at hpending
      rw [Tagging.noteEnd, ← hpending]
      rfl
    rw [hnoted]
    cases isEmpty with
    | true =>
      refine follows_addTree (r := r.settled) h.entities h.pending ?_
      rw [Layout.ofTags_append_singleton, ← h.layout]
      rfl
    | false =>
      refine ⟨h.entities, h.pending, ?_⟩
      rw [Layout.ofTags_append_singleton, ← h.layout]
      rfl

/-- An end tag closes the innermost element. -/
theorem yields_closeTag_follows (h : r.Follows s) (name : QName) (position : Position) :
    Yields (r.closeTag name position)
      (Follows · { s with tags := s.tags ++ [.closing] }) := by
  intro r' hr'
  rcases closeTag_cases hr' with ⟨hframes, rfl⟩ | ⟨f, fs, hframes, -, rfl⟩
  · refine ⟨h.entities, h.pending, ?_⟩
    rw [Layout.ofTags_append_singleton, ← h.layout]
    simp [Reading.layout, Reading.settled, Layout.step, hframes]
  · refine follows_addTree (r := { r.settled with frames := fs }) h.entities h.pending ?_
    rw [shape_close, Layout.ofTags_append_singleton, ← h.layout]
    simp [Reading.layout, Reading.settled, Layout.step, hframes]

/-! ### All tokens -/

/-- What a reader of tokens keeps to, where `note` notes their tags. -/
def KeepsTo (expand : List Token → Reading → Except Error Reading)
    (note : List Token → Tagging → Tagging) : Prop :=
  ∀ ts r s, r.Follows s → Yields (expand ts r) (Follows · (note ts s))

variable {expand : List Token → Reading → Except Error Reading}
  {note : List Token → Tagging → Tagging}

theorem yields_noteText_follows (he : KeepsTo expand note) (ps : List Piece) (h : r.Follows s) :
    Yields (noteText expand ps r) (Follows · (Tagging.noteText note ps s)) := by
  induction ps generalizing r s with
  | nil => exact Yields.ok h
  | cons p ps ih =>
    cases p with
    | plain c => exact ih h
    | character c position => exact ih h
    | malformed position => exact Yields.error _
    | entity name position after =>
      refine Yields.bind (Yields.self _) fun value hvalue => ?_
      refine Yields.bind (Yields.any _) fun nesting _ => ?_
      -- the tags of the entity are those of its text, which starts outside of every tag
      have hinside : { r with nesting := nesting, tag := none }.Follows
          { s with pending := none } := ⟨h.entities, rfl, h.layout⟩
      refine Yields.bind (he _ _ _ hinside) fun inner hinner => ?_
      refine Yields.bind (Yields.any _) fun _ _ => ?_
      have hfound : s.entities.lookup name = some value := by
        rw [← h.entities]
        unfold Entities.find at hvalue
        split at hvalue
        · rename_i c hc
          rwa [← Except.ok.inj hvalue]
        · contradiction
      rw [Tagging.noteText, hfound]
      exact ih ⟨hinner.entities, h.pending, hinner.layout⟩

theorem yields_step_follows (he : KeepsTo expand note) (h : r.Follows s) (t : Token) :
    Yields (step expand r t) (Follows · (Tagging.step note s t)) := by
  cases t with
  | entity name value =>
    exact Yields.ok ⟨congrArg (· ++ [(name, value)]) h.entities, h.pending, h.layout⟩
  | tagStart name position => exact Yields.ok ⟨h.entities, rfl, h.layout⟩
  | attr name position value => exact yields_noteAttr_follows h name position value
  | tagEnd isEmpty => exact yields_endTag_follows h isEmpty
  | close name position => exact yields_closeTag_follows h name position
  | text content => exact yields_noteText_follows he _ h

theorem keepsTo_foldl (he : KeepsTo expand note) :
    KeepsTo (fun ts r => ts.foldlM (step expand) r)
      fun ts s => ts.foldl (Tagging.step note) s := by
  intro ts
  induction ts with
  | nil => exact fun r s h => Yields.ok h
  | cons t ts ih =>
    intro r s h
    dsimp only
    rw [List.foldlM_cons, List.foldl_cons]
    exact Yields.bind (yields_step_follows he h t) fun r' h' => ih r' _ h'

theorem keepsTo_run (budget : Nat) : KeepsTo (run budget) (Tagging.run budget) := by
  induction budget with
  | zero => exact fun _ _ _ h => Yields.ok h
  | succ budget ih => exact keepsTo_foldl ih

end Reading

/-- The shape of a document is the first element that its tags build. -/
theorem shape_of_read {text : String} {t : Tree} (h : read text = .ok t) :
    (Layout.ofTags (tags text)).roots.getLast? = some t.shape := by
  obtain ⟨r, hr, -, hroots⟩ := yields_read_root text t h
  have hfollows := Reading.keepsTo_run maxDepth _ _ _ Reading.follows_start r hr
  rw [tags, ← hfollows.layout, Reading.layout, List.getLast?_map, hroots, Option.map_some]

/-- Documents with the same tags have the same shape. -/
theorem shape_eq_of_tags_eq {text other : String} {t u : Tree} (ht : read text = .ok t)
    (hu : read other = .ok u) (h : tags text = tags other) : t.shape = u.shape := by
  have hshape := shape_of_read ht
  rw [h, shape_of_read hu] at hshape
  exact (Option.some.inj hshape).symm

end IconCompiler.Xml
