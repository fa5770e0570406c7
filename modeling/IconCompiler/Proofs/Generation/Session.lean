import IconCompiler.Generation.Session
import IconCompiler.Proofs.Generation.Accounts

/-!
Actions that are taken one after the other where hooks may be at the files in between. What has been
done is kept in order, and the calls and the outputs are those of the actions. Hooks that only
rewrite texts leave the files to the actions.
-/

namespace IconCompiler

namespace Running

/-! ## Runs that go on -/

section

variable {α β : Type} {s s' s'' : Session}

theorem bind_eq_ok {x : Running α} {f : α → Running β} {b : β} :
    (x >>= f) s = .ok b s'' ↔ ∃ a s', x s = .ok a s' ∧ f a s' = .ok b s'' := by
  change EStateM.bind x f s = _ ↔ _
  unfold EStateM.bind
  cases x s <;> simp

theorem bind_of_ok {x : Running α} {a : α} (f : α → Running β) (h : x s = .ok a s') :
    (x >>= f) s = f a s' := by
  change EStateM.bind x f s = _
  rw [EStateM.bind, h]

theorem bind_of_error {x : Running α} {e : RunError} (f : α → Running β)
    (h : x s = .error e s') : (x >>= f) s = .error e s' := by
  change EStateM.bind x f s = _
  rw [EStateM.bind, h]

theorem pure_eq_ok {a b : α} : (pure a : Running α) s = .ok b s' ↔ b = a ∧ s' = s := by
  change EStateM.Result.ok a s = .ok b s' ↔ _
  rw [EStateM.Result.ok.injEq, eq_comm, @eq_comm _ s]

theorem get_bind (f : Session → Running β) : (get >>= f) s = f s s := rfl

theorem throw_ne_ok {e : RunError} {a : α} : (throw e : Running α) s ≠ .ok a s' := by
  change EStateM.Result.error e s ≠ .ok a s'
  exact fun h => by contradiction

theorem ofExcept_ok (a : α) : ofExcept (.ok a) = pure a := rfl

end

/-! ## Actions -/

section

variable {h : LiveHooks} {w : Writer} {out : String} {s s' s'' : Session} {a : Action}
  {as bs : List Action}

theorem performAll_nil : performAll h w out [] = pure () := rfl

theorem performAll_cons (h : LiveHooks) (w : Writer) (out : String) (a : Action)
    (as : List Action) :
    performAll h w out (a :: as) = perform h w out a >>= fun _ => performAll h w out as := rfl

theorem performAll_append (h : LiveHooks) (w : Writer) (out : String) (as bs : List Action) :
    performAll h w out (as ++ bs) =
      performAll h w out as >>= fun _ => performAll h w out bs := by
  induction as with
  | nil => rfl
  | cons a as ih =>
    rw [List.cons_append, performAll_cons, performAll_cons, ih, bind_assoc]

theorem performAll_append_eq_ok : performAll h w out (as ++ bs) s = .ok () s'' ↔
    ∃ s', performAll h w out as s = .ok () s' ∧ performAll h w out bs s' = .ok () s'' := by
  rw [performAll_append, bind_eq_ok]
  exact ⟨fun ⟨_, s', h₁, h₂⟩ => ⟨s', h₁, h₂⟩, fun ⟨s', h₁, h₂⟩ => ⟨(), s', h₁, h₂⟩⟩

theorem performAll_singleton_eq_ok :
    performAll h w out [a] s = .ok () s' ↔ perform h w out a s = .ok () s' := by
  rw [performAll_cons, bind_eq_ok]
  constructor
  · rintro ⟨_, s₁, ha, hnil⟩
    rw [performAll_nil, pure_eq_ok] at hnil
    exact hnil.2 ▸ ha
  · exact fun ha => ⟨(), s', ha, rfl⟩

/-- An action that is taken is known from then on, and the hook may have been at the files. -/
theorem take_of_perform (ha : perform h w out a s = .ok () s') :
    ∃ p, s.progress.take w out a = (p, .ok ()) ∧
      s' = ⟨{ p with tree := h.touched s.past a p.tree }, s.past ++ [a]⟩ := by
  unfold perform at ha
  split at ha
  · rename_i p _ hp
    exact ⟨p, hp, (EStateM.Result.ok.inj ha).2.symm⟩
  · contradiction

/-- Nothing stands in the way of a call. -/
theorem perform_call_bind {β : Type} (h : LiveHooks) (w : Writer) (out : String) (c : HookCall)
    (f : Unit → Running β) (s : Session) :
    (perform h w out (.call c) >>= f) s =
      f () ⟨⟨h.touch s.past c s.progress.tree, s.progress.calls ++ [c], s.progress.outputs,
        s.progress.removed⟩, s.past ++ [.call c]⟩ :=
  rfl

/-- What is between two stages of a run over actions that are all taken. -/
structure Performed (w : Writer) (out : String) (s s' : Session) (as : List Action) : Prop where
  past : s'.past = s.past ++ as
  calls : s'.progress.calls = s.progress.calls ++ as.filterMap Action.call?
  outputs : s'.progress.outputs = s.progress.outputs ++ (as.filterMap Action.file?).map fun f =>
    ⟨Path.join out f.fileName, f.contents, !w.dryRun⟩

theorem Performed.of_perform (ha : perform h w out a s = .ok () s') :
    Performed w out s s' [a] := by
  obtain ⟨p, hp, rfl⟩ := take_of_perform ha
  have hall := Progress.takeAll_singleton.mpr hp
  have hcalls := Progress.calls_takeAll hall
  have houtputs := Progress.outputs_takeAll hall
  exact ⟨rfl, hcalls, houtputs⟩

theorem Performed.append (h₁ : Performed w out s s' as) (h₂ : Performed w out s' s'' bs) :
    Performed w out s s'' (as ++ bs) := by
  constructor
  · rw [h₂.past, h₁.past, List.append_assoc]
  · rw [h₂.calls, h₁.calls, List.filterMap_append, List.append_assoc]
  · rw [h₂.outputs, h₁.outputs, List.filterMap_append, List.map_append, List.append_assoc]

theorem Performed.of_performAll (has : performAll h w out as s = .ok () s') :
    Performed w out s s' as := by
  induction as generalizing s with
  | nil =>
    rw [performAll_nil, pure_eq_ok] at has
    rw [has.2]
    exact ⟨by simp, by simp, by simp⟩
  | cons a as ih =>
    rw [performAll_cons, bind_eq_ok] at has
    obtain ⟨_, s₁, ha, has⟩ := has
    exact (Performed.of_perform ha).append (ih has)

end

/-! ## Hooks that only rewrite texts -/

section

variable {k : Hooks} {w : Writer} {out : String} {s : Session} {p : Progress}

theorem perform_live (k : Hooks) (w : Writer) (out : String) (a : Action) (s : Session) :
    perform k.live w out a s =
      match s.progress.take w out a with
      | (p, .ok _) => .ok () ⟨p, s.past ++ [a]⟩
      | (p, .error e) => .error (.write e) ⟨p, s.past⟩ := by
  unfold perform
  cases a <;> rfl

/-- Such hooks leave the files alone, so that actions are taken as a plan has them taken. -/
theorem performAll_live_of_ok {as : List Action}
    (h : s.progress.takeAll w out as = (p, .ok ())) :
    performAll k.live w out as s = .ok () ⟨p, s.past ++ as⟩ := by
  induction as generalizing s with
  | nil =>
    rw [List.append_nil, ← (Prod.mk.inj h).1]
    rfl
  | cons a as ih =>
    obtain ⟨p₁, h₁, h⟩ := Progress.takeAll_cons.mp h
    have hfirst : perform k.live w out a s = .ok () ⟨p₁, s.past ++ [a]⟩ := by
      rw [perform_live, h₁]
    have hrest := ih (s := ⟨p₁, s.past ++ [a]⟩) h
    rw [List.append_assoc] at hrest
    rw [performAll_cons, bind_of_ok _ hfirst, hrest, List.singleton_append]

theorem performAll_live_of_error {as : List Action} {e : WriteError}
    (h : s.progress.takeAll w out as = (p, .error e)) :
    ∃ past, performAll k.live w out as s = .error (.write e) ⟨p, past⟩ := by
  induction as generalizing s with
  | nil => simp [Progress.takeAll] at h
  | cons a as ih =>
    have hperform := perform_live k w out a s
    rw [Progress.takeAll] at h
    rw [performAll_cons]
    split at h
    · rename_i p₁ _ h₁
      rw [h₁] at hperform
      rw [bind_of_ok _ hperform]
      exact ih (s := ⟨p₁, s.past ++ [a]⟩) h
    · rename_i p₁ e' h₁
      obtain ⟨rfl, he⟩ := Prod.mk.inj h
      rw [h₁, Except.error.inj he] at hperform
      exact ⟨s.past, bind_of_error _ hperform⟩

end

end Running

end IconCompiler
