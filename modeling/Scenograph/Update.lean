namespace Scenograph

/-- Calls that change a state and may fail. A failed call keeps what it had changed by then. -/
abbrev Update (ε σ : Type) : Type → Type := EStateM ε σ

namespace Update

variable {ε σ τ : Type}

def after (u : Update ε σ Unit) (s : σ) : σ :=
  match u.run s with
  | .ok _ s' => s'
  | .error _ s' => s'

def attempt (u : Update ε σ Unit) (s : σ) : Except ε σ :=
  match u.run s with
  | .ok _ s' => .ok s'
  | .error e _ => .error e

def within (u : Update ε σ Unit) (part : τ → σ) (put : τ → σ → τ) : Update ε τ Unit := fun t =>
  match u.run (part t) with
  | .ok _ s => .ok () (put t s)
  | .error e s => .error e (put t s)

end Update

end Scenograph
