import LicenseFormula.Lexeme
import LicenseFormula.Text.Utf8

/-!
# Cursors

A cursor is a place in a text: the offset reached and the bytes still unread.  The lexeme after a
cursor is found by passing over blanks; a run of word bytes is taken to its end, every other
lexeme is one byte.

* `Cursor.next? c`    the first lexeme at or after `c`, where it starts and the cursor behind it;
* `Cursor.pull c`     the same as a token, with the `finish` token once nothing is left;
* `Cursor.skip c n`   the place behind `n` tokens from `c`;
* `Cursor.take c n`   the first `n` tokens from `c`, fewer when the text ends before;
* `Cursor.lexemes c`  all lexemes from `c` on;
* `length_after_lt`   every lexeme leaves fewer bytes, so that there are finitely many.
-/

namespace LicenseFormula

/-- a place in a text -/
structure Cursor where
  /-- the number of bytes before the place -/
  offset : Nat
  rest : List UInt8
deriving DecidableEq, Repr

/-- a lexeme with its place -/
structure Placed where
  /-- the offset of the first byte -/
  start : Nat
  lexeme : Lexeme
  /-- the place behind the last byte -/
  after : Cursor
deriving DecidableEq, Repr

namespace Cursor

def ofString (s : String) : Cursor := ⟨0, Text.bytes s⟩

def toEnd (c : Cursor) : Cursor := ⟨c.offset + c.rest.length, []⟩

/-- the first lexeme of the bytes that follow `offset` -/
def nextFrom (offset : Nat) : List UInt8 → Option Placed
  | [] => none
  | b :: rest =>
    match ByteClass.of b with
    | .blank => nextFrom (offset + 1) rest
    | .word =>
      let run := b :: rest.takeWhile isWordByte
      some ⟨offset, .run run, offset + run.length, rest.dropWhile isWordByte⟩
    | .opening k => some ⟨offset, .opening k, offset + 1, rest⟩
    | .closing k => some ⟨offset, .closing k, offset + 1, rest⟩
    | .stray => some ⟨offset, .stray b, offset + 1, rest⟩

/-- the first lexeme at or after the cursor -/
def next? (c : Cursor) : Option Placed := nextFrom c.offset c.rest

/-- the first token at or after the cursor and the place behind it; at the end of the text the
token is `Token.finish` and the place is the end -/
def pull (c : Cursor) : Token × Cursor :=
  match c.next? with
  | some p => (p.lexeme.token, p.after)
  | none => (Token.finish, c.toEnd)

/-- the place behind `n` tokens -/
def skip (c : Cursor) : Nat → Cursor
  | 0 => c
  | n + 1 => c.pull.2.skip n

/-- the first `n` tokens and the place behind them; when the text has fewer, all of them and the
end -/
def take (c : Cursor) : Nat → List Token × Cursor
  | 0 => ([], c)
  | n + 1 =>
    match c.next? with
    | some p => ((p.after.take n).map (p.lexeme.token :: ·) id)
    | none => ([], c.toEnd)

theorem length_nextFrom_lt {offset : Nat} {bs : List UInt8} {p : Placed}
    (h : nextFrom offset bs = some p) : p.after.rest.length < bs.length := by
  induction bs generalizing offset with
  | nil => simp [nextFrom] at h
  | cons b rest ih =>
    rw [nextFrom] at h
    split at h
    · exact Nat.lt_succ_of_lt (ih h)
    · obtain rfl := Option.some.inj h
      exact Nat.lt_succ_of_le (List.dropWhile_suffix _).length_le
    · obtain rfl := Option.some.inj h
      exact Nat.lt_succ_self _
    · obtain rfl := Option.some.inj h
      exact Nat.lt_succ_self _
    · obtain rfl := Option.some.inj h
      exact Nat.lt_succ_self _

theorem length_after_lt {c : Cursor} {p : Placed} (h : c.next? = some p) :
    p.after.rest.length < c.rest.length :=
  length_nextFrom_lt h

def lexemes (c : Cursor) : List Placed :=
  match h : c.next? with
  | none => []
  | some p =>
    have := length_after_lt h
    p :: lexemes p.after
termination_by c.rest.length

theorem lexemes_of_next?_eq_none {c : Cursor} (h : c.next? = none) : c.lexemes = [] := by
  rw [lexemes]
  split
  · rfl
  · next p hp =>
    rw [h] at hp
    cases hp

theorem lexemes_of_next?_eq_some {c : Cursor} {p : Placed} (h : c.next? = some p) :
    c.lexemes = p :: p.after.lexemes := by
  rw [lexemes]
  split
  · next hnone =>
    rw [h] at hnone
    cases hnone
  · next q hq =>
    obtain rfl := Option.some.inj (h.symm.trans hq)
    rfl

end Cursor

end LicenseFormula
