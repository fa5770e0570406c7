import IconCompiler.Proofs.Text.Front
import IconCompiler.Toml.Document

/-!
Documents of simple lines: comments, headers, and pairs of a bare key and a text or a truth value.
What the reader makes of such a document is what its lines say one after the other.
-/

namespace IconCompiler.Toml

variable {cs rest : List Char}

/-! ## Gaps and comments -/

theorem skipGap_cons {c : Char} (h : isGap c = false) : skipGap (c :: cs) = c :: cs :=
  List.dropWhile_cons_of_neg (by simp [h])

theorem skipGap_blank : skipGap (' ' :: cs) = skipGap cs :=
  List.dropWhile_cons_of_pos rfl

/-- What a comment says is passed over. -/
theorem comment?_comment (h : ∀ c ∈ cs, isControl c = false) :
    comment? ('#' :: (cs ++ '\n' :: rest)) = some ('\n' :: rest) := by
  have hrest : (cs ++ '\n' :: rest).dropWhile (fun c => !isControl c) = '\n' :: rest :=
    Text.dropWhile_append_cons (fun c hc => by simp [h c hc]) rfl
  simp [comment?, hrest, lineEnd?]

/-! ## Texts -/

/-- A character that stands for itself between quotes. -/
def IsPlain (c : Char) : Prop := isControl c = false ∧ c ≠ '"' ∧ c ≠ '\\'

instance (c : Char) : Decidable (IsPlain c) := inferInstanceAs (Decidable (_ ∧ _ ∧ _))

theorem shortRest_plain (h : ∀ c ∈ cs, IsPlain c) (fuel : Nat) (hfuel : cs.length < fuel)
    (read : List Char) :
    shortRest '"' true fuel read (cs ++ '"' :: rest) =
      some (String.ofList (read.reverse ++ cs), rest) := by
  induction cs generalizing fuel read with
  | nil =>
    obtain ⟨n, rfl⟩ := Nat.exists_eq_succ_of_ne_zero (Nat.ne_of_gt hfuel)
    simp [shortRest]
  | cons c cs ih =>
    obtain ⟨⟨hcontrol, hquote, hslash⟩, hcs⟩ := List.forall_mem_cons.mp h
    obtain ⟨n, rfl⟩ := Nat.exists_eq_succ_of_ne_zero (Nat.ne_of_gt (Nat.zero_lt_of_lt hfuel))
    rw [List.cons_append, shortRest, if_neg hquote, if_neg (fun hc => hslash hc.1),
      if_neg (by simp [hcontrol]), ih hcs n (Nat.lt_of_succ_lt_succ hfuel)]
    simp

/-- A text between quotes at the end of a line. Only a third quote would open a longer text. -/
theorem string?_plain (h : ∀ c ∈ cs, IsPlain c) :
    string? ('"' :: (cs ++ '"' :: '\n' :: rest)) = some (String.ofList cs, '\n' :: rest) := by
  have hshort : short? ('"' :: (cs ++ '"' :: '\n' :: rest)) =
      some (String.ofList cs, '\n' :: rest) := by
    rw [short?, shortRest_plain h _ (by simp only [List.length_append, List.length_cons]; omega) []]
    rfl
  cases cs with
  | nil => exact hshort
  | cons c cs =>
    have hquote : c ≠ '"' := (h c List.mem_cons_self).2.1
    rw [← hshort, string?]
    · rintro _ heq
      simp [hquote] at heq
    · rintro _ heq
      simp at heq

/-! ## Keys -/

/-- A key that is written without quotes. -/
structure IsBareKey (key : String) : Prop where
  ne_nil : key.toList ≠ []
  isKeyChar : ∀ c ∈ key.toList, isKeyChar c = true

instance (key : String) : Decidable (IsBareKey key) :=
  decidable_of_iff (key.toList ≠ [] ∧ key.toList.all isKeyChar = true)
    ⟨fun h => ⟨h.1, List.all_eq_true.mp h.2⟩, fun h => ⟨h.ne_nil, List.all_eq_true.mpr h.isKeyChar⟩⟩

theorem ne_of_isKeyChar {c d : Char} (hc : isKeyChar c = true) (hd : isKeyChar d = false) :
    c ≠ d := by
  rintro rfl
  rw [hc] at hd
  contradiction

theorem IsBareKey.exists_cons {key : String} (h : IsBareKey key) :
    ∃ c cs, key.toList = c :: cs ∧ Toml.isKeyChar c = true := by
  obtain ⟨c, cs, hkey⟩ := List.exists_cons_of_ne_nil h.ne_nil
  exact ⟨c, cs, hkey, h.isKeyChar c (hkey ▸ List.mem_cons_self)⟩

theorem isGap_of_isKeyChar {c : Char} (hc : isKeyChar c = true) : isGap c = false := by
  have hspace : c ≠ ' ' := ne_of_isKeyChar hc rfl
  have htab : c ≠ '\t' := ne_of_isKeyChar hc rfl
  simp [isGap, hspace, htab]

theorem simpleKey?_bare {key : String} (h : IsBareKey key) {c : Char}
    (hc : isKeyChar c = false) :
    simpleKey? (key.toList ++ c :: rest) = some (key, c :: rest) := by
  obtain ⟨d, ds, hkey, hd⟩ := h.exists_cons
  have hname : (key.toList ++ c :: rest).takeWhile isKeyChar = key.toList :=
    Text.takeWhile_append_cons h.isKeyChar hc
  rw [simpleKey?]
  · simp [hname, h.ne_nil, String.ofList_toList]
  · rintro _ heq
    rw [hkey] at heq
    exact ne_of_isKeyChar hd rfl (List.cons.inj heq).1
  · rintro _ heq
    rw [hkey] at heq
    exact ne_of_isKeyChar hd rfl (List.cons.inj heq).1

/-- A bare key that is not followed by a point is the whole of a key. -/
theorem key?_bare {key : String} (h : IsBareKey key) {c : Char} (hc : isKeyChar c = false)
    (hpoint : (skipGap (c :: rest)).head? ≠ some '.') :
    key? (key.toList ++ c :: rest) = some ([key], c :: rest) := by
  rw [key?, keyRest, simpleKey?_bare h hc]
  simp only [Option.bind_eq_bind, Option.bind_some]
  split
  · rename_i heq
    rw [heq] at hpoint
    exact absurd rfl hpoint
  · rfl

/-! ## Lines -/

inductive Line where
  | blank
  | comment (said : String)
  | text (key value : String)
  | flag (key : String) (value : Bool)
  | header (name : String)

namespace Line

/-- The word for a truth value. -/
def word (b : Bool) : String := if b then "true" else "false"

def chars : Line → List Char
  | blank => []
  | comment said => '#' :: said.toList
  | text key value => key.toList ++ [' ', '=', ' ', '"'] ++ value.toList ++ ['"']
  | flag key value => key.toList ++ [' ', '=', ' '] ++ (word value).toList
  | header name => '[' :: name.toList ++ [']']

/-- Nothing in the line needs quotes or escapes other than those that it is written with. -/
def IsSimple : Line → Prop
  | blank => True
  | comment said => ∀ c ∈ said.toList, isControl c = false
  | text key value => IsBareKey key ∧ ∀ c ∈ value.toList, IsPlain c
  | flag key _ => IsBareKey key
  | header name => IsBareKey name

-- a text is decided by its own characters, and not by all that there are
instance : (l : Line) → Decidable l.IsSimple
  | blank => inferInstanceAs (Decidable True)
  | comment said => List.decidableBAll (fun c => isControl c = false) said.toList
  | text key value =>
    @instDecidableAnd _ _ (inferInstanceAs (Decidable (IsBareKey key)))
      (List.decidableBAll IsPlain value.toList)
  | flag key _ | header key => inferInstanceAs (Decidable (IsBareKey key))

/-- A pair under the last header. -/
def enter (r : Reading) (key : String) (v : Value) : Option Reading :=
  (r.root.alter? false (Entries.addDotted? [key] v) r.header).map fun root => { r with root }

/-- What a line says. -/
def read (r : Reading) : Line → Option Reading
  | blank | comment _ => some r
  | text key value => enter r key (.text value)
  | flag key value => enter r key (.bool value)
  | header name => (r.root.open? false [name]).map fun root => ⟨root, [name]⟩

/-! ## Reading lines -/

theorem pair?_of_value? {key : String} {v : Value} (h : IsBareKey key) (hcs : skipGap cs = cs)
    (hv : value? (cs.length + 1) cs = some (v, rest)) (r : Reading) :
    pair? r (key.toList ++ ' ' :: '=' :: ' ' :: cs) = (enter r key v).map (·, rest) := by
  have hgap : skipGap (' ' :: '=' :: ' ' :: cs) = '=' :: ' ' :: cs := by
    rw [skipGap_blank, skipGap_cons rfl]
  have hkey : key? (key.toList ++ ' ' :: '=' :: ' ' :: cs) =
      some ([key], ' ' :: '=' :: ' ' :: cs) := key?_bare h rfl (by rw [hgap]; simp)
  rw [pair?, hkey]
  simp only [Option.bind_eq_bind, Option.bind_some, hgap, expect?, if_true, skipGap_blank, hcs, hv]
  cases hroot : r.root.alter? false (Entries.addDotted? [key] v) r.header with
  | none => simp [enter, hroot]
  | some root => simp [enter, hroot]

theorem value?_text (fuel : Nat) {value : String} (h : ∀ c ∈ value.toList, IsPlain c) :
    value? (fuel + 1) ('"' :: (value.toList ++ '"' :: '\n' :: rest)) =
      some (.text value, '\n' :: rest) := by
  rw [value?, string?_plain h, String.ofList_toList]
  rfl

theorem value?_flag (fuel : Nat) (value : Bool) :
    value? (fuel + 1) ((word value).toList ++ '\n' :: rest) =
      some (.bool value, '\n' :: rest) := by
  cases value <;> rfl

theorem line?_of_key {key : String} (h : IsBareKey key) (r : Reading) :
    line? r (skipGap (key.toList ++ cs)) = pair? r (key.toList ++ cs) := by
  obtain ⟨c, ds, hkey, hc⟩ := h.exists_cons
  rw [hkey, List.cons_append, skipGap_cons (isGap_of_isKeyChar hc), line?]
  · exact List.cons_ne_nil c _
  all_goals
    rintro _ heq
    exact ne_of_isKeyChar hc rfl (List.cons.inj heq).1

theorem header?_bare {name : String} (h : IsBareKey name) (r : Reading) :
    header? r (name.toList ++ ']' :: rest) =
      (r.root.open? false [name]).map fun root => (⟨root, [name]⟩, rest) := by
  obtain ⟨c, ds, hname, hc⟩ := h.exists_cons
  have hfront : skipGap (name.toList ++ ']' :: rest) = name.toList ++ ']' :: rest := by
    rw [hname]
    exact skipGap_cons (isGap_of_isKeyChar hc)
  have hend : skipGap (']' :: rest) = ']' :: rest := skipGap_cons rfl
  have hkey : key? (name.toList ++ ']' :: rest) = some ([name], ']' :: rest) :=
    key?_bare h rfl (by simp [hend])
  rw [header?]
  · simp only [hfront, hkey, Option.bind_eq_bind, Option.bind_some, hend, expect?, if_true]
    cases hroot : r.root.open? false [name] with
    | none => simp
    | some root => simp
  · rintro _ heq
    rw [hname] at heq
    exact ne_of_isKeyChar hc rfl (List.cons.inj heq).1

/-- The reader of a line takes what the line says, and leaves its end or a comment before it. -/
theorem exists_line? {l : Line} (h : l.IsSimple) (r : Reading) (rest : List Char) :
    ∃ after, line? r (skipGap (l.chars ++ '\n' :: rest)) = (l.read r).map (·, after) ∧
      comment? (skipGap after) = some ('\n' :: rest) := by
  cases l with
  | blank => exact ⟨'\n' :: rest, rfl, rfl⟩
  | comment said =>
    refine ⟨'#' :: (said.toList ++ '\n' :: rest), rfl, ?_⟩
    rw [skipGap_cons rfl, comment?_comment h]
  | text key value =>
    refine ⟨'\n' :: rest, ?_, rfl⟩
    have hpair : pair? r (key.toList ++ ' ' :: '=' :: ' ' :: '"' ::
        (value.toList ++ '"' :: '\n' :: rest)) =
          (enter r key (.text value)).map (·, '\n' :: rest) :=
      pair?_of_value? h.1 rfl (value?_text _ h.2) r
    rw [← line?_of_key h.1] at hpair
    simpa [chars, read] using hpair
  | flag key value =>
    refine ⟨'\n' :: rest, ?_, rfl⟩
    have hpair : pair? r (key.toList ++ ' ' :: '=' :: ' ' ::
        ((word value).toList ++ '\n' :: rest)) =
          (enter r key (.bool value)).map (·, '\n' :: rest) :=
      pair?_of_value? h (by cases value <;> rfl) (value?_flag _ value) r
    rw [← line?_of_key h] at hpair
    simpa [chars, read] using hpair
  | header name =>
    refine ⟨'\n' :: rest, ?_, rfl⟩
    have hheader : header? r (name.toList ++ ']' :: '\n' :: rest) =
        (r.root.open? false [name]).map fun root => (⟨root, [name]⟩, '\n' :: rest) :=
      header?_bare h r
    simpa [chars, read, line?, skipGap_cons (c := '[') rfl, Function.comp_def] using hheader

theorem linesRest_chars {l : Line} (h : l.IsSimple) (fuel : Nat) (r : Reading)
    (rest : List Char) :
    linesRest (fuel + 1) r (l.chars ++ '\n' :: rest) =
      (l.read r).bind fun r => linesRest fuel r rest := by
  obtain ⟨after, hline, hcomment⟩ := exists_line? h r rest
  rw [linesRest, hline]
  cases l.read r with
  | none => rfl
  | some r => simp [hcomment, lineEnd?]

end Line

/-! ## Documents -/

/-- The text of a document, each line with a line feed behind it. -/
def document (ls : List Line) : List Char := ls.flatMap fun l => l.chars ++ ['\n']

theorem document_cons (l : Line) (ls : List Line) :
    document (l :: ls) = l.chars ++ '\n' :: document ls := by
  simp [document]

theorem length_le_length_document (ls : List Line) : ls.length ≤ (document ls).length := by
  induction ls with
  | nil => exact Nat.le_refl 0
  | cons l ls ih =>
    rw [document_cons, List.length_append, List.length_cons, List.length_cons]
    omega

theorem linesRest_document {ls : List Line} (h : ∀ l ∈ ls, l.IsSimple) (fuel : Nat)
    (hfuel : ls.length < fuel) (r : Reading) :
    linesRest fuel r (document ls) = ls.foldlM Line.read r := by
  induction ls generalizing fuel r with
  | nil =>
    obtain ⟨n, rfl⟩ := Nat.exists_eq_succ_of_ne_zero (Nat.ne_of_gt hfuel)
    rfl
  | cons l ls ih =>
    obtain ⟨hl, hls⟩ := List.forall_mem_cons.mp h
    obtain ⟨n, rfl⟩ := Nat.exists_eq_succ_of_ne_zero (Nat.ne_of_gt (Nat.zero_lt_of_lt hfuel))
    rw [document_cons, Line.linesRest_chars hl, List.foldlM_cons]
    exact congrArg _ (funext fun r => ih hls n (Nat.lt_of_succ_lt_succ hfuel) r)

theorem skipMark_cons {c : Char} (h : c ≠ Char.ofNat 0xFEFF) (cs : List Char) :
    skipMark (c :: cs) = c :: cs := if_neg h

/-- No line begins with a mark of the byte order. -/
theorem Line.skipMark_chars {l : Line} (h : l.IsSimple) (rest : List Char) :
    skipMark (l.chars ++ '\n' :: rest) = l.chars ++ '\n' :: rest := by
  have hkey : ∀ {key : String} (cs : List Char), IsBareKey key →
      skipMark (key.toList ++ cs) = key.toList ++ cs := by
    intro key cs hkey
    obtain ⟨c, ds, hchars, hc⟩ := hkey.exists_cons
    rw [hchars]
    exact skipMark_cons (ne_of_isKeyChar hc rfl) _
  cases l with
  | blank => exact skipMark_cons (by decide) rest
  | comment said => exact skipMark_cons (by decide) _
  | text key value => simpa [chars] using hkey _ h.1
  | flag key value => simpa [chars] using hkey _ h
  | header name => exact skipMark_cons (by decide) _

theorem skipMark_document {ls : List Line} (h : ∀ l ∈ ls, l.IsSimple) :
    skipMark (document ls) = document ls := by
  cases ls with
  | nil => rfl
  | cons l ls =>
    rw [document_cons]
    exact Line.skipMark_chars (h l List.mem_cons_self) _

/-- A document of simple lines is read to what they say one after the other. -/
theorem ofChars?_document {ls : List Line} (h : ∀ l ∈ ls, l.IsSimple) :
    ofChars? (document ls) = (ls.foldlM Line.read ⟨[], []⟩).map (·.root) := by
  rw [ofChars?, skipMark_document h, linesRest_document h _
    (Nat.lt_succ_of_le (length_le_length_document ls))]

end IconCompiler.Toml
