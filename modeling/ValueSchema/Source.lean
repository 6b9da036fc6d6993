/-
# Places in a source

A span is a half-open range of positions in one file; a location adds the name of the file and is
what an error message starts with.
-/

namespace ValueSchema

/-- The half-open range of positions from `start` up to `stop`. -/
structure Span where
  /-- The first position of the range. -/
  start : Nat := 0
  /-- The position after the last one. -/
  stop : Nat := 0
deriving DecidableEq, Repr, Inhabited

namespace Span

/-- The empty span at a position. -/
def point (position : Nat) : Span := ⟨position, position⟩

/-- The number of positions in a span; none if it ends before it starts. -/
def length (s : Span) : Nat := s.stop - s.start

/-- Whether a span holds no position. -/
def isEmpty (s : Span) : Bool := s.stop ≤ s.start

/-- The smallest span that covers two others. -/
def cover (s t : Span) : Span := ⟨min s.start t.start, max s.stop t.stop⟩

/-- Whether every position of `t` lies between the ends of `s`. -/
def Covers (s t : Span) : Prop := s.start ≤ t.start ∧ t.stop ≤ s.stop

theorem cover_covers_left (s t : Span) : (s.cover t).Covers s :=
  ⟨Nat.min_le_left .., Nat.le_max_left ..⟩

theorem cover_covers_right (s t : Span) : (s.cover t).Covers t :=
  ⟨Nat.min_le_right .., Nat.le_max_right ..⟩

theorem Covers.trans {s t u : Span} (h : s.Covers t) (h' : t.Covers u) : s.Covers u :=
  ⟨Nat.le_trans h.1 h'.1, Nat.le_trans h'.2 h.2⟩

end Span

/-- A span in a named file. -/
structure Location where
  /-- The name of the file. -/
  file : String
  /-- The range of positions in it. -/
  span : Span
deriving DecidableEq, Repr, Inhabited

/-- The text of a location. -/
def Location.text (l : Location) : String :=
  l.file ++ ":" ++ toString l.span.start ++ ".." ++ toString l.span.stop

end ValueSchema
