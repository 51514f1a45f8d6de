import CommentTags.Tag.Literal

/-!
# Building patterns

Before anything is looked for, its pattern is written and compiled. Which patterns are accepted is up to the
compiler, which may find one too large. Literals are escaped through a cache, which outlives a pattern that
is refused.

## Main definitions

* `PatternCompiler`: accepts patterns, or tells what is wrong with them;
* `PatternBuilder`: a computation that escapes literals through a cache and may fail;
* `PatternBuilder.build`: its answer, and the cache afterwards.
-/

namespace CommentTags

/-- A pattern that was refused. -/
structure PatternError where
  /-- The pattern. -/
  pattern : String
  /-- What is wrong with it. -/
  reason : String
deriving DecidableEq, Repr, Inhabited

/-- How a pattern that was refused is reported. -/
def PatternError.message (e : PatternError) : String :=
  "regex compile error for pattern '" ++ e.pattern ++ "': " ++ e.reason

/-- A compiler of patterns. -/
structure PatternCompiler where
  /-- What is wrong with a pattern, if anything is. -/
  refusal? : (pattern : String) → (ignoreCase : Bool) → Option String

namespace PatternCompiler

/-- Compiles `pattern`. -/
def compile (compiler : PatternCompiler) (pattern : String) (ignoreCase : Bool) : Except PatternError Unit :=
  match compiler.refusal? pattern ignoreCase with
  | some reason => .error ⟨pattern, reason⟩
  | none => .ok ()

/-- The compiler accepts `pattern`. -/
def Accepts (compiler : PatternCompiler) (pattern : String) (ignoreCase : Bool) : Prop :=
  compiler.refusal? pattern ignoreCase = none

/-- Compiles every pattern. -/
def lenient : PatternCompiler :=
  ⟨fun _ _ => none⟩

theorem compile_of_accepts {compiler : PatternCompiler} {pattern : String} {ignoreCase : Bool}
    (h : compiler.Accepts pattern ignoreCase) : compiler.compile pattern ignoreCase = .ok () := by
  rw [compile, h]

end PatternCompiler

/-- A computation that escapes literals through a cache and may fail. -/
abbrev PatternBuilder := ExceptT PatternError (StateM EscapeCache)

namespace PatternBuilder

variable {α β : Type}

/-- What is built, and the cache afterwards. -/
def build (builder : PatternBuilder α) (escapes : EscapeCache) : Except PatternError α × EscapeCache :=
  builder.run.run escapes

/-- The pattern of `literal`. -/
def escape (literal : String) : PatternBuilder String :=
  modifyGet (·.escape literal)

@[simp]
theorem build_liftM (e : Except PatternError α) (escapes : EscapeCache) :
    (liftM e : PatternBuilder α).build escapes = (e, escapes) :=
  rfl

@[simp]
theorem build_escape (literal : String) (escapes : EscapeCache) :
    (escape literal).build escapes = (.ok (Literal.escape literal), (escapes.escape literal).2) := by
  rw [← EscapeCache.escape_fst escapes]
  rfl

/-- The second computation goes on with the cache of the first one, unless that fails. -/
theorem build_bind (builder : PatternBuilder α) (next : α → PatternBuilder β) (escapes : EscapeCache) :
    (builder >>= next).build escapes =
      match builder.build escapes with
      | (.ok a, escapes) => (next a).build escapes
      | (.error e, escapes) => (.error e, escapes) := by
  show (ExceptT.bindCont next (builder.build escapes).1).run (builder.build escapes).2 = _
  rcases builder.build escapes with ⟨e | a, escapes⟩ <;> rfl

/-- Two computations in turn succeed only if both do. -/
theorem build_bind_eq_ok {builder : PatternBuilder α} {next : α → PatternBuilder β} {escapes : EscapeCache}
    {b : β} (h : ((builder >>= next).build escapes).1 = .ok b) :
    ∃ a escapes', (builder.build escapes).1 = .ok a ∧ ((next a).build escapes').1 = .ok b := by
  rw [build_bind] at h
  rcases hbuilder : builder.build escapes with ⟨e | a, escapes'⟩
  · rw [hbuilder] at h
    cases h
  · rw [hbuilder] at h
    exact ⟨a, escapes', rfl, h⟩

end PatternBuilder

end CommentTags
