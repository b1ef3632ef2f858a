import JobManager.Library.Retry

/-!
# Pre- and postconditions of mutations

What an operation on a state leaves, from what it found: one postcondition for where it answers
and one for where it is refused.

Main results:

- Theorem {lit}`Triple.bind`: operations in sequence.
- Theorem {lit}`Triple.retry`: a retried operation, from one of its attempts.
-/

namespace JobManager

variable {σ ε α β : Type}

/-- From a state that meets {lit}`P` the operation answers in one that meets {lit}`Q`, or is
refused in one that meets {lit}`E`. -/
structure Triple (P : σ → Prop) (x : Mutation σ ε α) (Q : α → σ → Prop) (E : ε → σ → Prop) :
    Prop where
  answers : ∀ {s a s'}, P s → x s = (.ok a, s') → Q a s'
  refuses : ∀ {s e s'}, P s → x s = (.error e, s') → E e s'

namespace Triple

variable {P P' : σ → Prop} {Q Q' : α → σ → Prop} {E E' : ε → σ → Prop} {x : Mutation σ ε α}

/-- A triple may ask for more and promise less. -/
theorem conseq (h : Triple P' x Q' E') (hpre : ∀ s, P s → P' s) (hpost : ∀ a s, Q' a s → Q a s)
    (herror : ∀ e s, E' e s → E e s) : Triple P x Q E where
  answers hs hx := hpost _ _ (h.answers (hpre _ hs) hx)
  refuses hs hx := herror _ _ (h.refuses (hpre _ hs) hx)

/-- A value promises what holds of it. -/
theorem pure {a : α} (h : ∀ s, P s → Q a s) : Triple P (pure a : Mutation σ ε α) Q E where
  answers hs hx := by
    cases hx
    exact h _ hs
  refuses _ hx := by cases hx

/-- And so does a refusal. -/
theorem refuse {e : ε} (h : ∀ s, P s → E e s) :
    Triple P (Mutation.refuse e : Mutation σ ε α) Q E where
  answers _ hx := by cases hx
  refuses hs hx := by
    cases hx
    exact h _ hs

/-- Two operations in sequence. -/
theorem bind {R : α → σ → Prop} {f : α → Mutation σ ε β} {Q : β → σ → Prop} (hx : Triple P x R E)
    (hf : ∀ a, Triple (R a) (f a) Q E) : Triple P (x >>= f) Q E where
  answers hs h := by
    obtain ⟨a, s₁, hfirst, hsecond⟩ := Mutation.bind_eq_ok.mp h
    exact (hf a).answers (hx.answers hs hfirst) hsecond
  refuses hs h := by
    rcases Mutation.bind_eq_error.mp h with hfirst | ⟨a, s₁, hfirst, hsecond⟩
    · exact hx.refuses hs hfirst
    · exact (hf a).refuses (hx.answers hs hfirst) hsecond

/-- A precondition that is about no state. -/
theorem assume {A : Prop} (h : A → Triple P x Q E) : Triple (fun s => A ∧ P s) x Q E where
  answers hs hx := (h hs.1).answers hs.2 hx
  refuses hs hx := (h hs.1).refuses hs.2 hx

/-- What follows may use the state it was handed. -/
theorem current_bind {f : σ → Mutation σ ε β} {Q : β → σ → Prop}
    (h : ∀ s₀, Triple (fun s => P s ∧ s = s₀) (f s₀) Q E) :
    Triple P ((Mutation.current : Mutation σ ε σ) >>= f) Q E where
  answers hs hx := (h _).answers ⟨hs, rfl⟩ hx
  refuses hs hx := (h _).refuses ⟨hs, rfl⟩ hx

theorem write_bind {I : σ → Prop} {g : σ → σ} {f : Unit → Mutation σ ε β} {Q : β → σ → Prop}
    (h : Triple I (f ()) Q E) (hg : ∀ s, P s → I (g s)) :
    Triple P ((Mutation.write g : Mutation σ ε Unit) >>= f) Q E where
  answers hs hx := h.answers (hg _ hs) hx
  refuses hs hx := h.refuses (hg _ hs) hx

/-- What an attempt leaves: the answer of the call, or what the next attempt finds. -/
def attemptPost (P : σ → Prop) (R : ε → Prop) (Q : α → σ → Prop) : Retry.Step ε α → σ → Prop
  | .done value, s => Q value s
  | .retry cause, s => P s ∧ R cause

/-- A retried operation: what an attempt that is to be repeated leaves is what the next one
finds, and answers for the call where it was the last. -/
theorem retry {reports : Retry.Reports ε} {maxAttempts : Nat} {isPauseCancelled : Nat → Bool}
    {handler : Mutation σ ε (Retry.Step ε α)} {R : ε → Prop}
    (hhandler : Triple P handler (attemptPost P R Q) E)
    (hspent : ∀ cause s, P s → R cause → E (reports.fromSpentAttempts cause) s)
    (hcancelled : ∀ s, P s → E reports.fromCancellation s) :
    Triple P (Retry.retry reports maxAttempts isPauseCancelled fun _ => handler) Q E := by
  have hkeeps : Retry.Keeps reports (max 1 maxAttempts) isPauseCancelled (fun _ => handler)
      (fun _ => P) (fun result s => (∀ value, result = .ok value → Q value s) ∧
        ∀ e, result = .error e → E e s) := by
    refine ⟨?_, ?_, ?_⟩
    · intro attempt s e s' _ hs hattempt
      refine ⟨by simp, ?_⟩
      rintro _ ⟨⟩
      exact hhandler.refuses hs hattempt
    · intro attempt s value s' _ hs hattempt
      refine ⟨?_, by simp⟩
      rintro _ ⟨⟩
      exact hhandler.answers hs hattempt
    · intro attempt s cause s' _ hs hattempt
      obtain ⟨hs', hcause⟩ := hhandler.answers hs hattempt
      refine ⟨hs', ⟨by simp, ?_⟩, fun _ => ⟨by simp, ?_⟩⟩
      · rintro _ ⟨⟩
        exact hspent _ _ hs' hcause
      · rintro _ ⟨⟩
        exact hcancelled _ hs'
  refine ⟨?_, ?_⟩
  · intro s a s' hs hx
    have hrule := Retry.retry_rule hkeeps hs
    rw [hx] at hrule
    exact hrule.1 a rfl
  · intro s e s' hs hx
    have hrule := Retry.retry_rule hkeeps hs
    rw [hx] at hrule
    exact hrule.2 e rfl

/-- A retried operation whose first attempt ends the call wherever it answers. -/
theorem retry_once {reports : Retry.Reports ε} {maxAttempts : Nat} {isPauseCancelled : Nat → Bool}
    {handler : Mutation σ ε (Retry.Step ε α)}
    (hhandler : Triple P handler (fun step s => ∃ value, step = .done value ∧ Q value s) E) :
    Triple P (Retry.retry reports maxAttempts isPauseCancelled fun _ => handler) Q E := by
  have hfirst : ∀ s, P s →
      (∃ value s', Q value s' ∧
        Retry.retry reports maxAttempts isPauseCancelled (fun _ => handler) s = (.ok value, s')) ∨
      ∃ e s', E e s' ∧
        Retry.retry reports maxAttempts isPauseCancelled (fun _ => handler) s = (.error e, s') := by
    intro s hs
    rw [Retry.retry, Retry.retryFrom]
    beta_reduce
    rcases hattempt : handler s with ⟨e | step, s₁⟩
    · exact Or.inr ⟨e, s₁, hhandler.refuses hs hattempt, rfl⟩
    · obtain ⟨value, rfl, hvalue⟩ := hhandler.answers hs hattempt
      exact Or.inl ⟨value, s₁, hvalue, rfl⟩
  refine ⟨?_, ?_⟩
  · intro s value s' hs hx
    rcases hfirst s hs with ⟨value', s₁, hvalue, heq⟩ | ⟨e, s₁, -, heq⟩
    · rw [heq] at hx
      cases hx
      exact hvalue
    · rw [heq] at hx
      cases hx
  · intro s e s' hs hx
    rcases hfirst s hs with ⟨value, s₁, -, heq⟩ | ⟨e', s₁, herror, heq⟩
    · rw [heq] at hx
      cases hx
    · rw [heq] at hx
      cases hx
      exact herror

end Triple

end JobManager
