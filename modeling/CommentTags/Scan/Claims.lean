import CommentTags.Span

/-!
# Claimed text

A scan claims every comment it accepts, so that no later pass and no later window of the same
document takes text out of the middle of it. A `ClaimSet` holds the claimed spans, each as often as
it was claimed; they may nest and overlap.

The claims are held last start first. Scans move forward through the text, so the claims they ask
about are near the front; each claim also knows how far it and those before it reach, which ends a
query early.

## Main definitions

* `ClaimSet.claim`: adds a span, unless it is empty;
* `ClaimSet.toList`: the claimed spans in order;
* `ClaimSet.contains`, `ClaimSet.covers`, `ClaimSet.overlaps` and `ClaimSet.firstStartWithin`: questions
  about the claims near a position.
-/

namespace CommentTags

/-- A claimed span. -/
structure Claim where
  /-- The claimed offsets. -/
  span : Span
  /-- The furthest end of this span and of those that come before it in the text. -/
  reach : Nat
deriving DecidableEq, Repr

namespace Claim

/-- The furthest end of `claims`, held last start first. -/
def reachOf : List Claim → Nat
  | [] => 0
  | c :: _ => c.reach

/-- `claims` hold non-empty spans, the last start first, and know how far they reach. -/
def Ordered : List Claim → Prop
  | [] => True
  | c :: rest =>
    c.span.start < c.span.stop ∧ c.reach = max c.span.stop (reachOf rest) ∧
      (∀ d ∈ rest, d.span ≤ c.span) ∧ Ordered rest

/-- `claims` with the span `s` added in its place. -/
def insert (s : Span) : List Claim → List Claim
  | [] => [⟨s, s.stop⟩]
  | c :: rest =>
    if s ≤ c.span then
      let rest' := insert s rest
      ⟨c.span, max c.span.stop (reachOf rest')⟩ :: rest'
    else
      ⟨s, max s.stop c.reach⟩ :: c :: rest

/-- Inserting a span adds no span but this one. -/
theorem span_of_mem_insert {s : Span} {claims : List Claim} {d : Claim} (h : d ∈ insert s claims) :
    d.span = s ∨ ∃ c ∈ claims, d.span = c.span := by
  induction claims with
  | nil => simp [insert] at h; simp [h]
  | cons c rest ih =>
    rw [insert] at h
    split at h
    · rcases List.mem_cons.1 h with rfl | h
      · exact .inr ⟨c, by simp, rfl⟩
      · rcases ih h with h | ⟨b, hb, h⟩
        · exact .inl h
        · exact .inr ⟨b, by simp [hb], h⟩
    · rcases List.mem_cons.1 h with rfl | h
      · exact .inl rfl
      · exact .inr ⟨d, h, rfl⟩

/-- Inserting a span that is not empty keeps the claims in order. -/
theorem Ordered.insert {s : Span} (hs : s.start < s.stop) {claims : List Claim}
    (h : Ordered claims) : Ordered (insert s claims) := by
  induction claims with
  | nil => simp [Claim.insert, Ordered, reachOf, hs]
  | cons c rest ih =>
    obtain ⟨hc, hr, hle, hrest⟩ := h
    rw [Claim.insert]
    split
    -- the span goes further down the list
    · next hsc =>
      refine ⟨hc, rfl, fun d hd => ?_, ih hrest⟩
      rcases span_of_mem_insert hd with hd | ⟨b, hb, hd⟩
      · rw [hd]; exact hsc
      · rw [hd]; exact hle b hb
    -- the span goes to the front
    · next hsc =>
      refine ⟨hs, rfl, fun d hd => ?_, hc, hr, hle, hrest⟩
      have hcs := (Span.le_total c.span s).resolve_right hsc
      rcases List.mem_cons.1 hd with rfl | hd
      · exact hcs
      · exact Span.le_trans (hle d hd) hcs

/-- Some claim contains `p`. -/
def anyContains (p : Nat) : List Claim → Bool
  | [] => false
  | c :: rest =>
    if p < c.span.start then anyContains p rest
    else if c.reach ≤ p then false
    else p < c.span.stop || anyContains p rest

/-- Some claim covers all of `start ≤ p < stop`. -/
def anyCovers (start stop : Nat) : List Claim → Bool
  | [] => false
  | c :: rest =>
    if start < c.span.start then anyCovers start stop rest
    else if c.reach < stop then false
    else stop ≤ c.span.stop || anyCovers start stop rest

/-- Some claim starts before `stop` and ends after `start`. -/
def anyOverlaps (start stop : Nat) : List Claim → Bool
  | [] => false
  | c :: rest => if stop ≤ c.span.start then anyOverlaps start stop rest else start < c.reach

/-- The least start of a claim strictly between `after` and `before`, or `best` if there is none. -/
def leastStart (after before : Nat) (best : Option Nat) : List Claim → Option Nat
  | [] => best
  | c :: rest =>
    if before ≤ c.span.start then leastStart after before best rest
    else if after < c.span.start then leastStart after before (some c.span.start) rest
    else best

end Claim

/-- A collection of claimed spans. -/
structure ClaimSet where
  /-- The claims, last start first. -/
  claims : List Claim
  /-- The claims are in order and know how far they reach. -/
  ordered : Claim.Ordered claims

namespace ClaimSet

/-- No claims. -/
def empty : ClaimSet := ⟨[], trivial⟩

instance : EmptyCollection ClaimSet := ⟨empty⟩

instance : Inhabited ClaimSet := ⟨empty⟩

/-- Claims the span `s`, unless it is empty. -/
def claim (set : ClaimSet) (s : Span) : ClaimSet :=
  if h : s.start < s.stop then ⟨Claim.insert s set.claims, set.ordered.insert h⟩ else set

/-- Claims every span of `spans` in turn. -/
def claimAll (set : ClaimSet) (spans : List Span) : ClaimSet :=
  spans.foldl claim set

/-- The claims of `spans` alone. -/
def ofList (spans : List Span) : ClaimSet :=
  empty.claimAll spans

/-- The claimed spans in order. -/
def toList (set : ClaimSet) : List Span :=
  set.claims.reverse.map Claim.span

/-- The number of claims. -/
def size (set : ClaimSet) : Nat :=
  set.claims.length

/-- Nothing is claimed. -/
def isEmpty (set : ClaimSet) : Bool :=
  set.claims.isEmpty

/-- Some claim contains `p`. -/
def contains (set : ClaimSet) (p : Nat) : Bool :=
  Claim.anyContains p set.claims

/-- A single claim covers all of `start ≤ p < stop`. -/
def covers (set : ClaimSet) (start stop : Nat) : Bool :=
  Claim.anyCovers start stop set.claims

/-- Some claim overlaps `start ≤ p < stop`; an empty interval stands for the position `start`. -/
def overlaps (set : ClaimSet) (start stop : Nat) : Bool :=
  if stop ≤ start then set.contains start else Claim.anyOverlaps start stop set.claims

/-- The least start of a claim strictly between `after` and `before`. -/
def firstStartWithin (set : ClaimSet) (after before : Nat) : Option Nat :=
  Claim.leastStart after before none set.claims

end ClaimSet

end CommentTags
