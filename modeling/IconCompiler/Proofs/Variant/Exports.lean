import IconCompiler.Proofs.FileTree.Names
import IconCompiler.Proofs.Text.Words
import IconCompiler.Proofs.Template.Filled
import IconCompiler.Variant.Builtin

/-!
What a module exports from other modules, read line by line. A machine that looks at one character
at a time tells texts in which no line is such an export, and with it a template is checked once for
all components that it can be filled to.
-/

namespace IconCompiler

/-! ## Exports -/

namespace Exports

/-- What a line begins with that exports from another module. -/
def keyword : List Char := "export \x7b".toList

/-- The module that a line exports from: what is behind a point and a slash in the first quotes. -/
def module? (line : List Char) : Option String :=
  if keyword.isPrefixOf line then
    match line.dropWhile (· != '\'') with
    | '\'' :: '.' :: '/' :: cs => some (String.ofList (cs.takeWhile (· != '\'')))
    | _ => none
  else none

/-- The modules that a text exports from, in the order of its lines. -/
def modules (text : String) : List String :=
  (Text.splitAt (· == '\n') text.toList).filterMap module?

/-! ## Lines -/

/-- How far a line has come: it may still turn out to be an export once these characters follow, or
it is none. -/
inductive Line where
  | opening (next : Char) (rest : List Char)
  | settled
  deriving DecidableEq

namespace Line

def start : Line := opening 'e' "xport \x7b".toList

/-- The line behind one more character, unless it is an export by then. -/
def step : Line → Char → Option Line
  | opening next rest, c =>
    if c = '\n' then some start
    else if c = next then
      match rest with
      | [] => none
      | d :: ds => some (opening d ds)
    else some settled
  | settled, c => if c = '\n' then some start else some settled

/-- The last line of a text that goes on from a line, unless one of its lines is an export. -/
def after (l : Line) (cs : List Char) : Option Line := cs.foldlM step l

theorem after_append {l l₁ l₂ : Line} {a b : List Char} (ha : l.after a = some l₁)
    (hb : l₁.after b = some l₂) : l.after (a ++ b) = some l₂ := by
  unfold after at ha hb ⊢
  rw [List.foldlM_append, ha]
  exact hb

theorem after_of_not_mem {cs : List Char} (h : '\n' ∉ cs) : settled.after cs = some settled := by
  induction cs with
  | nil => rfl
  | cons c cs ih =>
    rw [List.mem_cons, not_or] at h
    have hstep : settled.step c = some settled := by
      rw [step, if_neg (Ne.symm h.1)]
    rw [after, List.foldlM_cons, hstep]
    exact ih h.2

/-- What a line must not begin with to be no export. -/
def Excludes : Line → List Char → Prop
  | opening next rest, line => ¬ (next :: rest) <+: line
  | settled, _ => True

theorem excludes_of_after {l l' : Line} {cs : List Char} (h : l.after cs = some l') :
    ∃ line lines, Text.splitAt (· == '\n') cs = line :: lines ∧ l.Excludes line ∧
      ∀ other ∈ lines, start.Excludes other := by
  induction cs generalizing l with
  | nil =>
    refine ⟨[], [], rfl, ?_, by simp⟩
    cases l <;> simp [Excludes]
  | cons c cs ih =>
    obtain ⟨l₁, hstep, hcs⟩ : ∃ l₁, l.step c = some l₁ ∧ l₁.after cs = some l' := by
      simpa [after, List.foldlM_cons, Option.bind_eq_some_iff] using h
    obtain ⟨line, lines, hsplit, hline, hlines⟩ := ih hcs
    by_cases hc : c = '\n'
    · -- the character ends the line, and the next one is as if it were the first
      subst hc
      have hl₁ : l₁ = start := by
        cases l <;> exact (Option.some.inj hstep).symm
      subst hl₁
      refine ⟨[], line :: lines, by simp [Text.splitAt, hsplit], ?_, ?_⟩
      · cases l <;> simp [Excludes]
      · exact List.forall_mem_cons.mpr ⟨hline, hlines⟩
    · refine ⟨c :: line, lines, by simp [Text.splitAt, hc, hsplit], ?_, hlines⟩
      cases l with
      | settled => trivial
      | opening next rest =>
        rw [Excludes, List.cons_prefix_cons, not_and]
        rintro rfl
        cases rest with
        | nil => simp [step, hc] at hstep
        | cons d ds =>
          have hl₁ : opening d ds = l₁ := by simpa [step, hc] using hstep
          subst hl₁
          exact hline

end Line

theorem module?_of_excludes {line : List Char} (h : Line.start.Excludes line) :
    module? line = none := by
  rw [module?, if_neg]
  rw [List.isPrefixOf_iff_prefix]
  exact h

theorem modules_eq_nil {text : String} {l : Line} (h : Line.start.after text.toList = some l) :
    modules text = [] := by
  obtain ⟨line, lines, hsplit, hline, hlines⟩ := Line.excludes_of_after h
  rw [modules, hsplit, List.filterMap_eq_nil_iff]
  exact List.forall_mem_cons.mpr
    ⟨module?_of_excludes hline, fun other ho => module?_of_excludes (hlines other ho)⟩

end Exports

end IconCompiler
