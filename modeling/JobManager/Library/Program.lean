import Mathlib.Tactic.Common

/-!
# Programs over requests

A program answers, or asks something of what surrounds it and goes on with the reply.  A
protocol says what may be asked in which phase, and where a request and its reply lead.  A
program conforms to it from a phase where it asks for nothing else, whatever it is answered.

Main results:

- Theorem {lit}`Program.run_bind`: how programs in sequence run.
- Theorem {lit}`Program.AtMost.bind`, {lit}`Program.AtMost.countP_asked`: how often programs in
  sequence ask, and how often that is in a run.
- Theorem {lit}`Program.Conforms.bind`: programs in sequence conform in sequence.
-/

namespace JobManager

/-- A program over the requests {lit}`Q` with their replies {lit}`A`. -/
inductive Program (Q : Type) (A : Q → Type) (α : Type) : Type where
  | done (a : α)
  | ask (q : Q) (next : A q → Program Q A α)

namespace Program

variable {Q : Type} {A : Q → Type} {α β : Type}

protected def bind : Program Q A α → (α → Program Q A β) → Program Q A β
  | .done a, f => f a
  | .ask q next, f => .ask q fun reply => (next reply).bind f

instance : Monad (Program Q A) where
  pure := .done
  bind := Program.bind

/-- Ask, and answer with the reply. -/
def request (q : Q) : Program Q A (A q) := .ask q .done

/-! ## Runs -/

section Runs

variable {σ : Type}

/-- Run a program against surroundings that answer every request and remember. -/
def run (answer : σ → (q : Q) → A q × σ) : Program Q A α → σ → α × σ
  | .done a, s => (a, s)
  | .ask q next, s => run answer (next (answer s q).1) (answer s q).2

theorem run_request (answer : σ → (q : Q) → A q × σ) (q : Q) (s : σ) :
    (request q).run answer s = answer s q := rfl

/-- Programs run one after the other. -/
theorem run_bind (answer : σ → (q : Q) → A q × σ) (x : Program Q A α)
    (f : α → Program Q A β) (s : σ) :
    (x >>= f).run answer s = (f (x.run answer s).1).run answer (x.run answer s).2 := by
  induction x generalizing s with
  | done a => rfl
  | ask q next ih => exact ih (answer s q).1 (answer s q).2

/-- What a program asks its surroundings for, in order. -/
def asked (answer : σ → (q : Q) → A q × σ) : Program Q A α → σ → List Q
  | .done _, _ => []
  | .ask q next, s => q :: asked answer (next (answer s q).1) (answer s q).2

end Runs

/-! ## How often a program asks -/

/-- Whatever it is answered, a program asks for what is counted so often at most. -/
def AtMost (counts : Q → Bool) : Nat → Program Q A α → Prop
  | _, .done _ => True
  | n, .ask q next =>
      if counts q then ∃ m, n = m + 1 ∧ ∀ reply, AtMost counts m (next reply)
      else ∀ reply, AtMost counts n (next reply)

namespace AtMost

variable {counts : Q → Bool} {n m : Nat}

/-- A request counts where it is one that does. -/
theorem ask_iff {q : Q} {next : A q → Program Q A α} :
    AtMost counts n (.ask q next) ↔
      ∃ m, n = m + (counts q).toNat ∧ ∀ reply, AtMost counts m (next reply) := by
  rw [AtMost]
  cases counts q <;> simp

/-- A bound holds with room to spare. -/
theorem mono {x : Program Q A α} (hle : n ≤ m) (h : AtMost counts n x) : AtMost counts m x := by
  induction x generalizing n m with
  | done a => trivial
  | ask q next ih =>
      obtain ⟨k, rfl, hnext⟩ := ask_iff.mp h
      exact ask_iff.mpr ⟨m - (counts q).toNat, by omega,
        fun reply => ih reply (by omega) (hnext reply)⟩

/-- A request that is counted leaves one less. -/
theorem ask {q : Q} {f : A q → Program Q A α} (h : ∀ reply, AtMost counts n (f reply)) :
    AtMost counts (n + (counts q).toNat) (request q >>= f) := ask_iff.mpr ⟨n, rfl, h⟩

theorem ask_uncounted {q : Q} {f : A q → Program Q A α} (hcounts : counts q = false)
    (h : ∀ reply, AtMost counts n (f reply)) : AtMost counts n (request q >>= f) := by
  have hask : AtMost counts (n + (counts q).toNat) (request q >>= f) := ask h
  rwa [hcounts] at hask

/-- The same of what an asking program is followed by. -/
theorem ask_bind {q : Q} {g : A q → Program Q A α} {f : α → Program Q A β}
    (h : ∀ reply, AtMost counts n (g reply >>= f)) :
    AtMost counts (n + (counts q).toNat) ((request q >>= g) >>= f) := ask h

theorem ask_bind_uncounted {q : Q} {g : A q → Program Q A α} {f : α → Program Q A β}
    (hcounts : counts q = false) (h : ∀ reply, AtMost counts n (g reply >>= f)) :
    AtMost counts n ((request q >>= g) >>= f) := ask_uncounted hcounts h

/-- Programs in sequence ask as often as both. -/
theorem bind {x : Program Q A α} {f : α → Program Q A β} (hx : AtMost counts n x)
    (hf : ∀ a, AtMost counts m (f a)) : AtMost counts (n + m) (x >>= f) := by
  induction x generalizing n with
  | done a => exact mono (Nat.le_add_left m n) (hf a)
  | ask q next ih =>
      obtain ⟨k, rfl, hnext⟩ := ask_iff.mp hx
      have hrest : ∀ reply, AtMost counts (k + m) (next reply >>= f) :=
        fun reply => ih reply (hnext reply)
      exact ask_iff.mpr ⟨k + m, by omega, hrest⟩

/-- In every run a program asks as often as it may. -/
theorem countP_asked {σ : Type} {x : Program Q A α} (h : AtMost counts n x)
    (answer : σ → (q : Q) → A q × σ) (s : σ) : (x.asked answer s).countP counts ≤ n := by
  induction x generalizing n s with
  | done a => exact Nat.zero_le n
  | ask q next ih =>
      obtain ⟨k, rfl, hnext⟩ := ask_iff.mp h
      have hrest := ih _ (hnext (answer s q).1) (answer s q).2
      rw [asked, List.countP_cons]
      cases counts q with
      | true => exact Nat.succ_le_succ hrest
      | false => exact hrest

end AtMost

/-! ## Conformance -/

/-- What may be asked in each phase, and the phase a request leads to with its reply. -/
structure Protocol (Q : Type) (A : Q → Type) (P : Type) where
  asks : P → Q → Prop
  after : P → (q : Q) → A q → P

variable {P : Type} {protocol : Protocol Q A P} {admits : (q : Q) → A q → Prop}

/-- From this phase the program asks for what its phase allows, whatever admitted replies it
gets, and every answer fits the phase it is given in. -/
def Conforms (protocol : Protocol Q A P) (admits : (q : Q) → A q → Prop)
    (post : α → P → Prop) : P → Program Q A α → Prop
  | p, .done a => post a p
  | p, .ask q next => protocol.asks p q ∧ ∀ reply, admits q reply →
      Conforms protocol admits post (protocol.after p q reply) (next reply)

namespace Conforms

variable {post : α → P → Prop} {p : P}

/-- A request its phase allows, with whatever reply. -/
theorem ask {q : Q} {f : A q → Program Q A α} (hasks : protocol.asks p q)
    (h : ∀ reply, admits q reply →
      Conforms protocol admits post (protocol.after p q reply) (f reply)) :
    Conforms protocol admits post p (request q >>= f) := ⟨hasks, h⟩

/-- Programs in sequence conform in sequence. -/
theorem bind {post' : β → P → Prop} {x : Program Q A α} {f : α → Program Q A β}
    (hx : Conforms protocol admits post p x)
    (hf : ∀ a p', post a p' → Conforms protocol admits post' p' (f a)) :
    Conforms protocol admits post' p (x >>= f) := by
  induction x generalizing p with
  | done a => exact hf a p hx
  | ask q next ih => exact ⟨hx.1, fun reply hreply => ih reply (hx.2 reply hreply)⟩

/-- One admitted reply leaves a conforming program. -/
theorem reply {q : Q} {next : A q → Program Q A α} {reply : A q}
    (h : Conforms protocol admits post p (.ask q next)) (hreply : admits q reply) :
    Conforms protocol admits post (protocol.after p q reply) (next reply) := h.2 reply hreply

end Conforms

end Program

end JobManager
