/-
Amend.Matching — finding the places a single edit replaces.

Three strategies are tried, each more tolerant than the one before: the
search text as it stands, with its white space relaxed, and by its words
alone. The first that finds exactly the expected number of places is
committed; if none does, nothing is edited and a `Mismatch` tells the three
numbers.

  §1 Strategies and what they find.
  §2 Choosing a strategy.
  §3 Resolving an edit.
  §4 Records.
-/
import Amend.Journal
import Amend.Pattern

namespace Amend

/-! ## §1 Strategies -/

/-- How tolerantly a search text is matched. -/
inductive Strategy where
  | exact
  | whitespace
  | tokens
  deriving DecidableEq, Repr

namespace Strategy

/-- The strategy's name in results and messages. -/
def name : Strategy → String
  | exact => "exact"
  | whitespace => "whitespace-tolerant"
  | tokens => "token-based"

/-- The matcher a strategy makes of a search text. -/
def matcher : Strategy → (search : Text) → Matcher
  | exact, search => Text.literal search
  | whitespace, search => (Pattern.tolerant search).matcher
  | tokens, search => (Pattern.tokens search).matcher

/-- The places a strategy finds. -/
def spans (s : Strategy) (content search : Text) : List Span :=
  Text.spans (s.matcher search) content

/-- How many places a strategy finds. -/
def count (s : Strategy) (content search : Text) : Nat := (s.spans content search).length

end Strategy

/-! ## §2 Choosing a strategy -/

/-- The strategy that is committed and the places it found. -/
structure Match where
  strategy : Strategy
  spans : List Span
  deriving DecidableEq, Repr

namespace Match

/-- How many places were found. -/
def count (m : Match) : Nat := m.spans.length

/-- The offsets where the places start. -/
def positions (m : Match) : List Nat := m.spans.map Span.start

end Match

/-- No strategy found the expected number of places: how many each found. -/
structure Mismatch where
  expected : Int
  exact : Nat
  whitespace : Nat
  tokens : Nat
  deriving DecidableEq, Repr

/-- Whether no strategy found anything. -/
def Mismatch.isMiss (m : Mismatch) : Bool := m.exact == 0 && m.whitespace == 0 && m.tokens == 0

/-- The first strategy that finds exactly `expected` places. -/
def findMatches (content search : Text) (expected : Int) : Except Mismatch Match :=
  let exact := Strategy.exact.spans content search
  if exact.length = expected then .ok ⟨.exact, exact⟩
  else
    let whitespace := Strategy.whitespace.spans content search
    if whitespace.length = expected then .ok ⟨.whitespace, whitespace⟩
    else
      let tokens := Strategy.tokens.spans content search
      if tokens.length = expected then .ok ⟨.tokens, tokens⟩
      else .error ⟨expected, exact.length, whitespace.length, tokens.length⟩

/-! ## §3 Resolving an edit -/

/-- An edit carried out: the text it leaves and the match it replaced. -/
structure Edit where
  content : Text
  found : Match
  deriving DecidableEq, Repr

/-- Replaces every place of the committed strategy. -/
def resolveEdit (content search replacement : Text) (expected : Int) : Except Mismatch Edit :=
  (findMatches content search expected).map fun m =>
    ⟨Text.replaceAll (m.strategy.matcher search) content replacement, m⟩

/-! ## §4 Records -/

/-- The strategies that were given up before one was committed, or all
failed. -/
def findRecords (content search : Text) (expected : Int) : List Record :=
  let exact := Strategy.exact.count content search
  if exact = expected then []
  else
    ⟨.debug, .matching, "[CodeEdit] Exact match found " ++ Text.ofNat exact
      ++ " occurrence(s), expected " ++ Text.ofInt expected ++ "; trying whitespace-tolerant"⟩ ::
    let whitespace := Strategy.whitespace.count content search
    if whitespace = expected then []
    else [⟨.debug, .matching, "[CodeEdit] Whitespace-tolerant found " ++ Text.ofNat whitespace
      ++ " occurrence(s); trying token-based"⟩]

/-- What resolving an edit is recorded as. -/
def resolveRecords (content search : Text) (expected : Int) : List Record :=
  findRecords content search expected ++
    match findMatches content search expected with
    | .ok m =>
      [⟨.debug, .matching, "[CodeEdit] Committed " ++ Text.ofNat m.count ++ " replacement(s) via "
        ++ Text.ofString m.strategy.name ++ " strategy"⟩]
    | .error _ => []

end Amend
