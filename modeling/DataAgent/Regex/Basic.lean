import DataAgent.Python.Text

/-!
# Backtracking regular expressions

A pattern denotes the list of its successes from a cursor, in the order a backtracking matcher tries them, so
the head of the list is the match it reports. Repetition is over one character class, which is all that the
patterns of a keyword scanner need.

* `run` : the successes of a pattern; `first` : the one the matcher takes;
* `search` : the leftmost position with a success; `findIter` : the successive matches that do not overlap.
-/

namespace DataAgent.Regex
open Python (Text)

/-- A position in a text: the characters read so far, last first, and the rest. -/
structure Cursor where
  before : Text
  after : Text
  deriving DecidableEq, Repr

def Cursor.start (t : Text) : Cursor := ⟨[], t⟩

inductive Pattern where
  /-- One character of a class. -/
  | char (p : Char → Bool)
  /-- `p*`, as many as possible. -/
  | many (p : Char → Bool)
  /-- `p*?`, as few as possible. -/
  | manyLazy (p : Char → Bool)
  | empty
  | seq (r q : Pattern)
  | alt (r q : Pattern)
  /-- `r?`, present if possible. -/
  | opt (r : Pattern)
  | group (i : Nat) (r : Pattern)
  /-- `\b`. -/
  | wordBoundary
  /-- `^`. -/
  | begins
  /-- `$`: the end of the text, or just before a newline that ends it. -/
  | ends

/-- Captured groups, latest first. -/
abbrev Groups := List (Nat × Text)

namespace Pattern

/-- Patterns one after another. -/
def cat (rs : List Pattern) : Pattern := rs.foldr seq empty

/-- One of several patterns, the earlier ones preferred. -/
def oneOf : List Pattern → Pattern
  | [] => char fun _ => false
  | [r] => r
  | r :: rs => alt r (oneOf rs)

/-- `p+`. -/
def plus (p : Char → Bool) : Pattern := seq (char p) (many p)

/-- A literal text, each of its characters read up to `eqv`. -/
def lit (eqv : Char → Char → Bool) (t : Text) : Pattern := t.foldr (fun c r => seq (char (eqv c)) r) empty

end Pattern

/-- The cursors that `p*` can stop at, the farthest first. -/
def stops (p : Char → Bool) : Text → Text → List Cursor
  | b, [] => [⟨b, []⟩]
  | b, c :: t => if p c then stops p (c :: b) t ++ [⟨b, c :: t⟩] else [⟨b, c :: t⟩]

/-- The text between two cursors of one text. -/
def consumed (s s' : Cursor) : Text := s.after.take (s.after.length - s'.after.length)

section Run
variable (word : Char → Bool)

/-- A boundary: a word character on exactly one side. -/
def atBoundary (s : Cursor) : Bool := s.before.head?.any word != s.after.head?.any word

/-- The successes of a pattern from a cursor. -/
@[grind =] def run : Pattern → Cursor → List (Cursor × Groups)
  | .char p, s => match s.after with
    | [] => []
    | c :: t => if p c then [(⟨c :: s.before, t⟩, [])] else []
  | .many p, s => (stops p s.before s.after).map (·, [])
  | .manyLazy p, s => (stops p s.before s.after).reverse.map (·, [])
  | .empty, s => [(s, [])]
  | .seq r q, s => (run r s).flatMap fun x => (run q x.1).map fun y => (y.1, y.2 ++ x.2)
  | .alt r q, s => run r s ++ run q s
  | .opt r, s => run r s ++ [(s, [])]
  | .group i r, s => (run r s).map fun x => (x.1, (i, consumed s x.1) :: x.2)
  | .wordBoundary, s => if atBoundary word s then [(s, [])] else []
  | .begins, s => if s.before.isEmpty then [(s, [])] else []
  | .ends, s => if s.after.isEmpty || s.after == ['\n'] then [(s, [])] else []

/-- The match a backtracking matcher reports at a cursor. -/
def first (r : Pattern) (s : Cursor) : Option (Cursor × Groups) := (run word r s).head?

/-- A match: where it starts and stops, and its groups. -/
structure Match where
  start : Cursor
  stop : Cursor
  groups : Groups
  deriving DecidableEq, Repr

/-- The text of a captured group. -/
def Match.group (m : Match) (i : Nat) : Option Text := m.groups.lookup i

/-- The positions a match covers, as a half-open interval. -/
def Match.span (m : Match) : Nat × Nat := (m.start.before.length, m.stop.before.length)

def matchAt (r : Pattern) (s : Cursor) : Option Match := (first word r s).map fun x => ⟨s, x.1, x.2⟩

/-- `re.match`. -/
def matchStart (r : Pattern) (t : Text) : Option Match := matchAt word r (.start t)

def searchFrom (r : Pattern) (b : Text) : Text → Option Match
  | [] => matchAt word r ⟨b, []⟩
  | c :: t => match matchAt word r ⟨b, c :: t⟩ with
    | some m => some m
    | none => searchFrom r (c :: b) t

/-- `re.search`. -/
def search (r : Pattern) (t : Text) : Option Match := searchFrom word r [] t

/-- The matches from a cursor, the first `skip` characters being inside an earlier match. -/
def findFrom (r : Pattern) : Nat → Text → Text → List Match
  | 0, b, [] => (matchAt word r ⟨b, []⟩).toList
  | _ + 1, _, [] => []
  | 0, b, c :: t => match matchAt word r ⟨b, c :: t⟩ with
    | some m => m :: findFrom r (m.stop.before.length - m.start.before.length - 1) (c :: b) t
    | none => findFrom r 0 (c :: b) t
  | k + 1, b, c :: t => findFrom r k (c :: b) t

/-- `re.finditer`, for a pattern that never matches the empty text. -/
def findIter (r : Pattern) (t : Text) : List Match := findFrom word r 0 [] t

end Run

end DataAgent.Regex
