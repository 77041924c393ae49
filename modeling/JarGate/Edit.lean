/-!
# Edits

An edit changes a value step by step. When a step fails, the edit stops there, and the value keeps
what the steps before it did; nothing is undone. The combinators lift an edit of a part to an edit
of the whole, and an edit of an element to one of a list.
-/

namespace JarGate

/-- An edit of a value of type `σ` that answers an `α` or fails with an `ε`. -/
abbrev Edit (ε σ α : Type) := EStateM ε σ α

namespace Edit

variable {ε ε' σ τ α : Type}

/-- A computation that looks at nothing and changes nothing, but may fail. -/
def lift (x : Except ε α) : Edit ε σ α := fun s =>
  match x with
  | .ok a => .ok a s
  | .error e => .error e s

/-- Puts the new value in place, unless computing it failed. -/
def replace (x : Except ε σ) : Edit ε σ Unit := fun s =>
  match x with
  | .ok s => .ok () s
  | .error e => .error e s

/-- The edit of a part, as an edit of the whole. -/
def within (part : σ → τ) (put : τ → σ → σ) (e : Edit ε τ α) : Edit ε σ α := fun s =>
  match e (part s) with
  | .ok a t => .ok a (put t s)
  | .error err t => .error err (put t s)

/-- The same edit under other errors. -/
def mapError (f : ε → ε') (e : Edit ε σ α) : Edit ε' σ α := fun s =>
  match e s with
  | .ok a s => .ok a s
  | .error err s => .error (f err) s

/-- `eachOnto e done xs` edits the elements of `xs` in order; the elements of `done`, reversed, come
before them and stay as they are. -/
def eachOnto (e : Edit ε α Unit) (done : List α) : List α → EStateM.Result ε (List α) Unit
  | [] => .ok () done.reverse
  | x :: xs =>
    match e x with
    | .ok () x => eachOnto e (x :: done) xs
    | .error err x => .error err (done.reverse ++ x :: xs)

/-- Edits the elements of a list in order. After a failure the elements that follow are as they
were. -/
def each (e : Edit ε α Unit) : Edit ε (List α) Unit := fun xs =>
  eachOnto e [] xs

/-- The outcome of an edit without the edited value. -/
def outcome (e : Edit ε σ α) (s : σ) : Except ε α :=
  match e s with
  | .ok a _ => .ok a
  | .error err _ => .error err

/-- The value an edit leaves behind, whether it failed or not. -/
def final (e : Edit ε σ α) (s : σ) : σ :=
  match e s with
  | .ok _ s => s
  | .error _ s => s

end Edit

end JarGate
