/-!
# Ranges of character offsets

A range is half open and counts characters, not bytes. Nothing forces `start ≤ stop`; a range with
that property is called ordered.
-/

namespace InterpolationLint

structure TextRange where
  start : Nat
  stop : Nat
deriving DecidableEq, Repr, Inhabited

namespace TextRange

def single (offset : Nat) : TextRange := ⟨offset, offset + 1⟩

def length (r : TextRange) : Nat := r.stop - r.start

def isEmpty (r : TextRange) : Bool := r.start == r.stop

def contains (outer inner : TextRange) : Bool :=
  outer.start ≤ inner.start && inner.stop ≤ outer.stop

def IsOrdered (r : TextRange) : Prop := r.start ≤ r.stop

instance (r : TextRange) : Decidable r.IsOrdered := inferInstanceAs (Decidable (_ ≤ _))

def order (a b : TextRange) : Ordering :=
  (compare a.start b.start).then (compare a.stop b.stop)

def text (r : TextRange) : String := s!"{r.start}..{r.stop}"

end TextRange

end InterpolationLint
