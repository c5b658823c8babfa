/-!
# Scanning text from its start

A `Scan` takes something off the start of a text or fails, and a failed scan can be followed by
another from the same place.  Repetition stops when nothing is taken off any more, so every scan ends.
-/

namespace QueryPipeline.Toml

/-- Takes a value off the start of a text. -/
abbrev Scan := StateT (List Char) Option

namespace Scan

variable {α β : Type}

/-- One character that satisfies `p`. -/
def satisfy (p : Char → Bool) : Scan Char := fun cs =>
  match cs with
  | [] => none
  | c :: rest => if p c then some (c, rest) else none

/-- The character `c`. -/
def char (c : Char) : Scan Unit := do
  let _ ← satisfy (· == c)

/-- The given characters. -/
def chars : List Char → Scan Unit
  | [] => pure ()
  | c :: rest => do
    char c
    chars rest

/-- All characters up to the first that does not satisfy `p`. -/
def takeWhile (p : Char → Bool) : Scan (List Char) := fun cs =>
  some (cs.takeWhile p, cs.dropWhile p)

/-- At least one character, up to the first that does not satisfy `p`. -/
def takeWhile1 (p : Char → Bool) : Scan (List Char) := do
  let cs ← takeWhile p
  guard (cs ≠ [])
  pure cs

/-- The end of the text. -/
def atEnd : Scan Unit := fun cs =>
  if cs.isEmpty then some ((), cs) else none

/-- A scan whose result is the given value. -/
def giving (b : β) (p : Scan α) : Scan β := do
  let _ ← p
  pure b

/-- The results of a scan as often as it takes something off, and the text behind them. -/
def collect (p : Scan α) (cs : List Char) : List α × List Char :=
  match p cs with
  | none => ([], cs)
  | some (a, rest) =>
    if rest.length < cs.length then
      let (as, last) := collect p rest
      (a :: as, last)
    else ([], cs)
termination_by cs.length

/-- A scan as often as it takes something off. -/
def many (p : Scan α) : Scan (List α) := fun cs =>
  some (collect p cs)

/-- Results with separators between them; there may be none. -/
def sepBy (p : Scan α) (sep : Scan β) : Scan (List α) :=
  (do
    let a ← p
    let as ← many (do
      let _ ← sep
      p)
    pure (a :: as))
  <|> pure []

/-- A scan `n` times. -/
def times (n : Nat) (p : Scan α) : Scan (List α) :=
  match n with
  | 0 => pure []
  | n + 1 => do
    let a ← p
    let as ← times n p
    pure (a :: as)

/-- The value of a scan that takes the whole text off. -/
def whole? (p : Scan α) (cs : List Char) : Option α :=
  match p cs with
  | some (a, []) => some a
  | _ => none

end Scan

end QueryPipeline.Toml
