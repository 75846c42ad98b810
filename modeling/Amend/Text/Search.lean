/-
Amend.Text.Search — finding and replacing the non-overlapping matches of a
matcher.

A matcher looks at the text from some place on and says how many symbols
match there. `spans` takes the matches from left to right, each search
starting where the match before it ended; `replaceAll` replaces the same
matches in one pass over the text.
-/
import Amend.Text.Symbol

namespace Amend

/-- The symbols from offset `start` up to `stop`, the latter left out. -/
structure Span where
  start : Nat
  stop : Nat
  deriving DecidableEq, Repr

namespace Span

/-- How many symbols a span holds. -/
def length (s : Span) : Nat := s.stop - s.start

/-- Two spans have a symbol in common. -/
def overlaps (s t : Span) : Bool := s.start < t.stop && t.start < s.stop

end Span

/-- How many symbols match at the start of a text, if any do. -/
abbrev Matcher := Text → Option Nat

namespace Text

/-- The text as it is found in another text. The empty text is never found. -/
def literal (search : Text) : Matcher := fun t =>
  if search ≠ [] ∧ search.isPrefixOf t then some search.length else none

/-- The matches in the part of a text that starts at offset `pos`; the first
`skip` symbols still belong to the match before. -/
def spansFrom (m : Matcher) : (pos skip : Nat) → Text → List Span
  | _, _, [] => []
  | pos, skip + 1, _ :: t => spansFrom m (pos + 1) skip t
  | pos, 0, c :: t =>
    match m (c :: t) with
    | some (n + 1) => ⟨pos, pos + (n + 1)⟩ :: spansFrom m (pos + 1) n t
    | _ => spansFrom m (pos + 1) 0 t

/-- The non-overlapping matches of a text, left to right. -/
def spans (m : Matcher) (content : Text) : List Span := spansFrom m 0 0 content

/-- Replaces the matches of a text whose first `skip` symbols are already
replaced. -/
def replaceFrom (m : Matcher) (replacement : Text) : (skip : Nat) → Text → Text
  | _, [] => []
  | skip + 1, _ :: t => replaceFrom m replacement skip t
  | 0, c :: t =>
    match m (c :: t) with
    | some (n + 1) => replacement ++ replaceFrom m replacement n t
    | _ => c :: replaceFrom m replacement 0 t

/-- The text with each of its non-overlapping matches replaced. The
replacement is copied as it stands. -/
def replaceAll (m : Matcher) (content replacement : Text) : Text :=
  replaceFrom m replacement 0 content

/-- The first match of a text, overlapping nothing before it. -/
def firstFrom (m : Matcher) : (pos : Nat) → Text → Option Span
  | _, [] => none
  | pos, c :: t =>
    match m (c :: t) with
    | some (n + 1) => some ⟨pos, pos + (n + 1)⟩
    | _ => firstFrom m (pos + 1) t

/-- The leftmost match of a text. -/
def first? (m : Matcher) (content : Text) : Option Span := firstFrom m 0 content

/-- The least offset at which one text stands in another; the empty text
stands at the start of every text. -/
def find? (content search : Text) : Option Nat :=
  if search = [] then some 0 else (first? (literal search) content).map Span.start

/-- Whether one text stands in another. -/
def contains (content search : Text) : Bool := (find? content search).isSome

/-- The text with every non-overlapping occurrence of `old` replaced. -/
def replace (content old new : Text) : Text := replaceAll (literal old) content new

/-- The text with `new` in place of the span `s`. -/
def splice (content : Text) (s : Span) (new : Text) : Text :=
  content.take s.start ++ new ++ content.drop s.stop

end Text

end Amend
