import IconCompiler.Xml.Document

/-!
What one token does to a reading, said once. An attribute binds a namespace or waits for its
element, the end of a start tag opens an element or makes one that is closed at once, and an end tag
closes the innermost one. What holds of every reading is shown from this, for one token after the
other.
-/

namespace IconCompiler.Xml

/-- Whether an attribute of this name declares a namespace. -/
def QName.Declares (n : QName) : Prop := n.qualifier = "xmlns" ∨ n.localPart = "xmlns"

instance (n : QName) : Decidable n.Declares := inferInstanceAs (Decidable (_ ∨ _))

/-! ## Outcomes -/

/-- What holds of the outcome of a reader, should there be one. -/
def Yields {α : Type} (x : Except Error α) (Q : α → Prop) : Prop := ∀ a, x = .ok a → Q a

namespace Yields

variable {α β : Type} {P : α → Prop} {Q : β → Prop}

theorem ok {a : α} (h : P a) : Yields (.ok a) P := by
  intro b hb
  rw [← Except.ok.inj hb]
  exact h

theorem error (e : Error) : Yields (.error e) P := by
  intro b hb
  contradiction

theorem any (x : Except Error α) : Yields x fun _ => True := fun _ _ => trivial

/-- A computation has the outcome that it has. -/
theorem self (x : Except Error α) : Yields x fun a => x = .ok a := fun _ h => h

theorem bind {x : Except Error α} {f : α → Except Error β} (hx : Yields x P)
    (hf : ∀ a, P a → Yields (f a) Q) : Yields (x >>= f) Q := by
  intro b hb
  cases x with
  | error e => contradiction
  | ok a => exact hf a (hx a rfl) b hb

end Yields

namespace Reading

variable {r r' : Reading} {name : QName} {position : Position} {value : Cursor}

/-- The reading with nothing in it that waits for an element. -/
def settled (r : Reading) : Reading := { r with attributes := [], bindings := [] }

/-! ## Attributes -/

/-- A qualifier is bound to the value, if at all: the one that is bound anyway is not. -/
theorem exists_of_bindQualifier {qualifier value : String}
    (h : r.bindQualifier qualifier value position = .ok r') :
    ∃ bs, (∀ b ∈ bs, b = ⟨qualifier, value⟩) ∧ r' = { r with bindings := r.bindings ++ bs } := by
  unfold bindQualifier at h
  split at h
  · contradiction
  split at h
  · contradiction
  split at h
  · contradiction
  split at h
  · contradiction
  split at h
  · obtain rfl := Except.ok.inj h
    exact ⟨[], by simp, by rw [List.append_nil]⟩
  · exact ⟨[⟨qualifier, value⟩], fun b hb => List.mem_singleton.mp hb, (Except.ok.inj h).symm⟩

theorem eq_of_bindDefault {value : String} (h : r.bindDefault value position = .ok r') :
    r' = { r with bindings := r.bindings ++ [⟨"", value⟩] } := by
  unfold bindDefault at h
  split at h
  · contradiction
  split at h
  · contradiction
  exact (Except.ok.inj h).symm

/-- The value of an attribute is read, and then it binds a namespace or waits for its element. -/
theorem noteAttr_cases (h : r.noteAttr name position value = .ok r') :
    ∃ cs nesting, valueIn r.entities maxDepth value r.nesting = .ok (cs, nesting) ∧
      ((name.Declares ∧ ∃ bs, (∀ b ∈ bs, b.qualifier = "" ∨ b.qualifier = name.localPart) ∧
          r' = { r with nesting := nesting, bindings := r.bindings ++ bs }) ∨
        (¬ name.Declares ∧ r' = { r with
          nesting := nesting
          attributes := r.attributes ++ [⟨name, position, String.ofList cs⟩] })) := by
  unfold noteAttr at h
  cases hvalue : valueIn r.entities maxDepth value r.nesting with
  | error e =>
    rw [hvalue] at h
    contradiction
  | ok x =>
    refine ⟨x.1, x.2, rfl, ?_⟩
    simp only [hvalue, bind, Except.bind] at h
    split at h
    · rename_i hq
      obtain ⟨bs, hbs, hr'⟩ := exists_of_bindQualifier h
      exact Or.inl ⟨Or.inl hq, bs, fun b hb => Or.inr (by rw [hbs b hb]), hr'⟩
    · rename_i hq
      split at h
      · rename_i hl
        exact Or.inl ⟨Or.inr hl, _, by simp, eq_of_bindDefault h⟩
      · rename_i hl
        exact Or.inr ⟨not_or.mpr ⟨hq, hl⟩, (Except.ok.inj h).symm⟩

/-! ## Tags -/

/-- The end of a start tag. The attributes that wait are resolved, and the element is closed at once
or becomes the innermost one. -/
theorem endTag_cases {isEmpty : Bool} (h : r.endTag isEmpty = .ok r') :
    (r.tag = none ∧ r' = r) ∨
      ∃ name position as, r.tag = some (name, position) ∧
        resolveAttrs r.scope [] r.attributes = .ok as ∧
        r' = if isEmpty then r.settled.addTree (.element name r.scope as [])
          else { r.settled with frames := ⟨name, r.scope, as, []⟩ :: r.frames } := by
  unfold endTag at h
  split at h
  · rename_i htag
    exact Or.inl ⟨htag, (Except.ok.inj h).symm⟩
  · rename_i name position htag
    refine Or.inr ⟨name, position, ?_⟩
    cases has : resolveAttrs r.scope [] r.attributes with
    | error e =>
      simp only [has, bind, Except.bind] at h
      contradiction
    | ok as =>
      refine ⟨as, htag, rfl, ?_⟩
      simp only [has, bind, Except.bind] at h
      -- the qualifier of the element is looked up, but that changes nothing
      have hend : (if isEmpty then pure (r.settled.addTree (.element name r.scope as []))
          else pure { r.settled with frames := ⟨name, r.scope, as, []⟩ :: r.frames } :
            Except Error Reading) = .ok r' := by
        split at h
        · split at h
          · contradiction
          · exact h
        · exact h
      cases isEmpty <;> exact (Except.ok.inj hend).symm

/-- An end tag closes the innermost element, if one is open. -/
theorem closeTag_cases (h : r.closeTag name position = .ok r') :
    (r.frames = [] ∧ r' = r.settled) ∨
      ∃ f fs, r.frames = f :: fs ∧ f.name = name ∧
        r' = { r.settled with frames := fs }.addTree f.close := by
  unfold closeTag at h
  split at h
  · contradiction
  · cases hresolved : resolveAttrs r.scope [] r.attributes with
    | error e =>
      rw [hresolved] at h
      contradiction
    | ok as =>
      simp only [hresolved, bind, Except.bind] at h
      split at h
      · rename_i hframes
        exact Or.inl ⟨hframes, (Except.ok.inj h).symm⟩
      · rename_i f fs hframes
        split at h
        · contradiction
        · rename_i hname
          exact Or.inr ⟨f, fs, hframes, Decidable.of_not_not hname, (Except.ok.inj h).symm⟩

end Reading

/-- A document is read to the end, and its tree is the first one that was closed. -/
theorem yields_read_root (text : String) : Yields (read text) fun t => ∃ r,
    Reading.run maxDepth (Cursor.ofText text.toList).document.tokens .start = .ok r ∧
      r.frames = [] ∧ r.roots.getLast? = some t := by
  refine Yields.bind (Yields.self _) fun r hr => ?_
  refine Yields.bind (Yields.any _) fun _ _ => ?_
  unfold Reading.root
  split
  · rename_i t hframes hroots
    exact Yields.ok ⟨r, hr, hframes, hroots⟩
  · exact Yields.error _
  · exact Yields.error _

end IconCompiler.Xml
