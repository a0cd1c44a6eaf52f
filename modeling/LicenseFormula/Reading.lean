import LicenseFormula.Assembly
import LicenseFormula.Event

/-!
# Reading a text

One reading takes lexemes from a cursor on until the text ends or a bracket closes nothing.  It
yields the formula or the fault, the place where it stopped and all that happened on the way.
Nothing of what was assembled before a fault is kept: the next reading starts anew from where
this one stopped.

* `Reading.ofCursor c`    the reading from a cursor on;
* `Formula.parse s`       the formula of a whole text;
* `toOption_outcome_ofCursor`, `Formula.toOption_parse` the outcome is the formula of the symbols.
-/

namespace LicenseFormula

/-- what comes of reading -/
structure Reading where
  outcome : Except Fault Formula
  /-- behind the bracket that closes nothing, else the end of the text -/
  stop : Cursor
  events : List Event
deriving Repr

/-- what is told of a lexeme before its meaning is looked at -/
def Placed.events (p : Placed) : List Event :=
  match p.lexeme with
  | .stray byte => [.stray byte p.start, .token p.lexeme.token]
  | l => [.token l.token]

/-- what is told of a symbol that led from one state to another, with the offset behind it -/
def Symbol.events (x : Symbol) (old new : Assembly) (offset : Nat) : List Event :=
  match x with
  | .opening b => [.opened b old.depth offset]
  | .closing b => [.closed b new.depth]
  | _ => []

namespace Reading

/-- the reading with events before its own -/
def behind (es : List Event) (r : Reading) : Reading := { r with events := es ++ r.events }

/-- the reading that ends in a fault -/
def failed (fault : Fault) (stop : Cursor) : Reading := ⟨.error fault, stop, [.failed fault]⟩

/-- the reading of the lexemes that are left before the end of the text -/
def ofLexemes (finish : Cursor) (s : Assembly) : List Placed → Reading
  | [] =>
    match s.finish? with
    | some f => ⟨.ok f, finish, []⟩
    | none => failed (.leftOpen s.depth) finish
  | p :: ps =>
    match p.symbol? with
    | none => (ofLexemes finish s ps).behind p.events
    | some x =>
      match s.step x with
      | .ok t => (ofLexemes finish t ps).behind (p.events ++ x.events s t p.after.offset)
      | .error b => (failed (.unmatched b p.after.offset) p.after).behind p.events

def ofCursor (c : Cursor) : Reading := ofLexemes c.toEnd .start c.lexemes

theorem outcome_behind (es : List Event) (r : Reading) : (r.behind es).outcome = r.outcome := rfl

theorem toOption_outcome_ofLexemes (finish : Cursor) (s : Assembly) (ps : List Placed) :
    (ofLexemes finish s ps).outcome.toOption
      = (s.run (ps.filterMap Placed.symbol?)).toOption.bind Assembly.finish? := by
  induction ps generalizing s with
  | nil =>
    show (ofLexemes finish s []).outcome.toOption = s.finish?
    rw [ofLexemes]
    split
    · next f hf =>
      rw [hf]
      rfl
    · next hf =>
      rw [hf]
      rfl
  | cons p ps ih =>
    rw [ofLexemes]
    split
    · next hx => rw [outcome_behind, ih, List.filterMap_cons_none hx]
    · next x hx =>
      rw [List.filterMap_cons_some hx, Assembly.run_cons]
      split
      · next t ht =>
        rw [outcome_behind, ih, ht]
        rfl
      · next b hb =>
        rw [outcome_behind, hb]
        rfl

theorem toOption_outcome_ofCursor (c : Cursor) :
    (ofCursor c).outcome.toOption = Formula.ofSymbols? c.symbols :=
  toOption_outcome_ofLexemes _ _ _

end Reading

def Formula.parse (s : String) : Except Fault Formula :=
  (Reading.ofCursor (Cursor.ofString s)).outcome

theorem Formula.toOption_parse (s : String) :
    (Formula.parse s).toOption = Formula.ofSymbols? (symbolsOf s) :=
  Reading.toOption_outcome_ofCursor _

end LicenseFormula
