import CommentTags.Document.Position

/-!
# Windows on a document

The lines that the first pass scans: the visible lines, some lines above and below them, without going
beyond the document. Ranges that overlap or touch make one window, so that windows stand apart and in
order.
-/

namespace CommentTags

/-- The lines from `first` to `last`. -/
structure Window where
  /-- The first line. -/
  first : Nat
  /-- The last line. -/
  last : Nat
deriving DecidableEq, Repr, Inhabited

namespace Window

/-- The lines of a visible range and `preload` lines on either side, in a document whose last line is
`lastLine`. -/
def around (preload lastLine : Nat) (visible : TextRange) : Window where
  first := min visible.start.line lastLine - preload
  last := min (max visible.stop.line visible.start.line + preload) lastLine

/-- Order by first line, then by last line. -/
def precedes (a b : Window) : Bool :=
  a.first < b.first || (a.first == b.first && a.last ≤ b.last)

/-- Joins windows that overlap or touch; they come in order, and `window` comes before `rest`. -/
def join (window : Window) : List Window → List Window
  | [] => [window]
  | next :: rest =>
    if next.first ≤ window.last + 1 then join ⟨window.first, max window.last next.last⟩ rest
    else window :: join next rest

/-- The windows of the visible ranges. -/
def ofVisible (visible : List TextRange) (preload lastLine : Nat) : List Window :=
  match (visible.map (around preload lastLine)).mergeSort precedes with
  | [] => []
  | window :: rest => join window rest

end Window

end CommentTags
