import LicenseFormula.Proofs.Stopping
import LicenseFormula.Session

/-!
# Readings one after the other

What a reading yields depends on the bytes behind its cursor alone; where they stand in the text
only moves the offsets.  A session therefore reads each time as if it had just begun, on what is
left.  A reading that fails at a closing bracket leaves fewer of them, any other leaves nothing; so
a session is at the end of its text after as many failures as there are closing brackets, at the
most, and one reading more.

* `Reading.shift k r`           the reading with all offsets moved by `k`;
* `Reading.ofCursor_shift`      the reading from a cursor that is moved;
* `Cursor.IsIn bs c`            the cursor is a place in the bytes `bs`;
* `Session.after s n`           the session behind `n` readings;
* `Session.isIn_cursor_after`   a session never leaves its text;
* `Session.exists_drained`      how many readings fail at a closing bracket, one after the other;
* `Session.readings_independent` all of this for a session that begins behind some tokens.
-/

namespace LicenseFormula

/-! ### offsets that are moved -/

def Fault.shift (k : Nat) : Fault → Fault
  | unmatched b offset => unmatched b (k + offset)
  | leftOpen depth => leftOpen depth

def Event.shift (k : Nat) : Event → Event
  | stray byte offset => stray byte (k + offset)
  | opened b depth offset => opened b depth (k + offset)
  | failed fault => failed (fault.shift k)
  | token t => token t
  | closed b depth => closed b depth

def Cursor.shift (k : Nat) (c : Cursor) : Cursor := ⟨k + c.offset, c.rest⟩

def Placed.shift (k : Nat) (p : Placed) : Placed := ⟨k + p.start, p.lexeme, p.after.shift k⟩

/-- the reading with all offsets moved -/
def Reading.shift (k : Nat) (r : Reading) : Reading :=
  ⟨r.outcome.mapError (Fault.shift k), r.stop.shift k, r.events.map (Event.shift k)⟩

theorem Cursor.toEnd_shift (k : Nat) (c : Cursor) : (c.shift k).toEnd = c.toEnd.shift k := by
  show (⟨k + c.offset + c.rest.length, []⟩ : Cursor) = ⟨k + (c.offset + c.rest.length), []⟩
  rw [Nat.add_assoc]

theorem Cursor.lexemes_shift (k : Nat) (c : Cursor) :
    (c.shift k).lexemes = c.lexemes.map (Placed.shift k) := by
  obtain ⟨n, bs⟩ := c
  show (⟨k + n, bs⟩ : Cursor).lexemes = _
  induction bs using lexing_induction generalizing n with
  | nil => rw [lexemes_nil, lexemes_nil]; rfl
  | blank b bs hb ih => rw [lexemes_blank _ bs hb, lexemes_blank _ bs hb, Nat.add_assoc, ih]
  | single b l bs hl ih =>
    rw [lexemes_single _ bs hl, lexemes_single _ bs hl, Nat.add_assoc, ih]
    rfl
  | run ws bs hne hws hbs ih =>
    rw [lexemes_run _ hne hws hbs, lexemes_run _ hne hws hbs, Nat.add_assoc, ih]
    rfl

theorem Placed.events_shift (k : Nat) (p : Placed) :
    (p.shift k).events = p.events.map (Event.shift k) := by
  obtain ⟨start, l, after⟩ := p
  cases l <;> rfl

theorem Symbol.events_shift (k : Nat) (x : Symbol) (s t : Assembly) (offset : Nat) :
    x.events s t (k + offset) = (x.events s t offset).map (Event.shift k) := by
  cases x <;> rfl

namespace Reading

theorem shift_behind (k : Nat) (es : List Event) (r : Reading) :
    (r.behind es).shift k = (r.shift k).behind (es.map (Event.shift k)) := by
  simp only [shift, behind, List.map_append]

theorem ofLexemes_shift (k : Nat) (finish : Cursor) (s : Assembly) (ps : List Placed) :
    ofLexemes (finish.shift k) s (ps.map (Placed.shift k)) = (ofLexemes finish s ps).shift k := by
  induction ps generalizing s with
  | nil =>
    rw [List.map_nil, ofLexemes, ofLexemes]
    cases s.finish? <;> rfl
  | cons p ps ih =>
    have hsymbol : (p.shift k).symbol? = p.symbol? := rfl
    rw [List.map_cons, ofLexemes, ofLexemes, hsymbol]
    cases p.symbol? with
    | none => simp only [ih, shift_behind, Placed.events_shift]
    | some x =>
      cases hx : s.step x with
      | error b =>
        simp only [hx, shift_behind, Placed.events_shift]
        rfl
      | ok t =>
        have hoffset : (p.shift k).after.offset = k + p.after.offset := rfl
        simp only [hx, ih, shift_behind, Placed.events_shift, List.map_append, hoffset,
          Symbol.events_shift]

theorem ofCursor_shift (k : Nat) (c : Cursor) : ofCursor (c.shift k) = (ofCursor c).shift k := by
  rw [ofCursor, Cursor.toEnd_shift, Cursor.lexemes_shift, ofLexemes_shift]
  rfl

theorem ofCursor_nil (k : Nat) : ofCursor ⟨k, []⟩ = ⟨.ok default, ⟨k, []⟩, []⟩ := by
  rw [ofCursor, Cursor.lexemes_nil]
  rfl

end Reading

/-! ### places in bytes -/

/-- the cursor is a place in the bytes -/
structure Cursor.IsIn (bs : List UInt8) (c : Cursor) : Prop where
  offset_le : c.offset ≤ bs.length
  rest_eq : c.rest = bs.drop c.offset

namespace Cursor.IsIn

variable {bs : List UInt8} {c : Cursor}

theorem ofString (s : String) : (Cursor.ofString s).IsIn (Text.bytes s) :=
  ⟨Nat.zero_le _, rfl⟩

theorem advance (h : c.IsIn bs) (as : List UInt8) {d : Cursor} (hrest : c.rest = as ++ d.rest)
    (hoffset : d.offset = c.offset + as.length) : d.IsIn bs := by
  have hlen : c.rest.length = bs.length - c.offset := by rw [h.rest_eq, List.length_drop]
  rw [hrest, List.length_append] at hlen
  have hle := h.offset_le
  refine ⟨by omega, ?_⟩
  rw [hoffset, ← List.drop_drop, ← h.rest_eq, hrest, List.drop_left]

theorem toEnd (h : c.IsIn bs) : c.toEnd.IsIn bs :=
  h.advance c.rest (List.append_nil _).symm rfl

theorem offset_toEnd (h : c.IsIn bs) : c.toEnd.offset = bs.length := by
  have hle := h.offset_le
  show c.offset + c.rest.length = bs.length
  rw [h.rest_eq, List.length_drop]
  omega

theorem pull (h : c.IsIn bs) : c.pull.2.IsIn bs := by
  rw [Cursor.pull]
  cases hp : c.next? with
  | none => exact h.toEnd
  | some p =>
    obtain ⟨gap, _, hrest, hstart, hafter⟩ := exists_gap_of_nextFrom hp
    rw [← List.append_assoc] at hrest
    refine h.advance _ hrest ?_
    rw [hafter, hstart, List.length_append, Nat.add_assoc]

theorem skip (h : c.IsIn bs) (n : Nat) : (c.skip n).IsIn bs := by
  induction n generalizing c with
  | zero => exact h
  | succ n ih => exact ih h.pull

theorem stop (h : c.IsIn bs) : (Reading.ofCursor c).stop.IsIn bs := by
  cases Reading.ends c with
  | formula _ _ hstop => rw [hstop]; exact h.toEnd
  | leftOpen _ _ _ hstop => rw [hstop]; exact h.toEnd
  | @unmatched b as cs ks hrest _ _ _ hstop =>
    rw [hstop]
    refine h.advance (as ++ [b.closer.toUInt8]) ?_ ?_
    · rw [hrest, List.append_assoc, List.singleton_append]
    · rw [List.length_append, List.length_singleton, Nat.add_assoc]

end Cursor.IsIn

theorem Cursor.IsIn.eq_shift {bs : List UInt8} {c : Cursor} (h : c.IsIn bs) :
    c = (⟨0, bs.drop c.offset⟩ : Cursor).shift c.offset := by
  obtain ⟨k, rest⟩ := c
  obtain rfl : rest = bs.drop k := h.rest_eq
  rfl

/-! ### what a reading leaves -/

/-- the number of closing brackets among the bytes -/
def closingsIn (bs : List UInt8) : Nat := (bs.filterMap Edge.ofByte?).countP Edge.isClosing

theorem closingsIn_append_closer (as bs : List UInt8) (b : Bracket) :
    closingsIn (as ++ b.closer.toUInt8 :: bs) = closingsIn as + closingsIn bs + 1 := by
  rw [closingsIn, List.filterMap_append, List.filterMap_cons_some (Edge.ofByte?_closer b),
    List.countP_append, List.countP_cons_of_pos (by rfl), Nat.add_assoc]
  rfl

namespace Reading

/-- the reading failed at a closing bracket -/
def IsUnmatched (r : Reading) : Prop := ∃ b n, r.outcome = .error (.unmatched b n)

variable {c : Cursor}

theorem closingsIn_stop_lt (h : (ofCursor c).IsUnmatched) :
    closingsIn (ofCursor c).stop.rest < closingsIn c.rest := by
  obtain ⟨b, n, h⟩ := h
  obtain ⟨as, bs, ks, hrest, _, _, _, hstop⟩ := exists_of_outcome_eq_unmatched h
  rw [hstop, hrest, closingsIn_append_closer]
  show closingsIn bs < closingsIn as + closingsIn bs + 1
  omega

theorem stop_eq_toEnd (h : ¬ (ofCursor c).IsUnmatched) : (ofCursor c).stop = c.toEnd := by
  cases ends c with
  | formula _ _ hstop => exact hstop
  | leftOpen _ _ _ hstop => exact hstop
  | unmatched _ _ _ hr _ => exact absurd ⟨_, _, hr⟩ h

theorem stop_of_unmatched {bs : List UInt8} {b : Bracket} {n : Nat} (hc : c.IsIn bs)
    (h : (ofCursor c).outcome = .error (.unmatched b n)) :
    (ofCursor c).stop.offset = n ∧ c.offset < n ∧ bs[n - 1]? = some b.closer.toUInt8 := by
  obtain ⟨as, cs, ks, hrest, _, _, rfl, hstop⟩ := exists_of_outcome_eq_unmatched h
  rw [hstop]
  refine ⟨rfl, by omega, ?_⟩
  rw [Nat.add_sub_cancel, ← List.getElem?_drop, ← hc.rest_eq, hrest,
    List.getElem?_append_right (Nat.le_refl _), Nat.sub_self]
  rfl

end Reading

/-! ### sessions -/

namespace Session

variable {m : Type → Type}

/-- the session behind so many readings -/
def after (s : Session m) : Nat → Session m
  | 0 => s
  | n + 1 => s.read.2.after n

theorem after_add (s : Session m) (n k : Nat) : s.after (n + k) = (s.after n).after k := by
  induction n generalizing s with
  | zero => rw [Nat.zero_add]; rfl
  | succ n ih => rw [Nat.succ_add]; exact ih s.read.2

theorem isIn_cursor_after {bs : List UInt8} {s : Session m} (h : s.cursor.IsIn bs) (n : Nat) :
    (s.after n).cursor.IsIn bs := by
  induction n generalizing s with
  | zero => exact h
  | succ n ih => exact ih (s := s.read.2) h.stop

theorem exists_drained (s : Session m) :
    ∃ j ≤ closingsIn s.cursor.rest, (∀ i < j, (s.after i).read.1.IsUnmatched)
      ∧ ¬ (s.after j).read.1.IsUnmatched := by
  induction hn : closingsIn s.cursor.rest using Nat.strongRecOn generalizing s with
  | _ n ih =>
    by_cases h : s.read.1.IsUnmatched
    · have hlt : closingsIn s.read.2.cursor.rest < n := hn ▸ Reading.closingsIn_stop_lt h
      obtain ⟨j, hj, hbefore, hat⟩ := ih _ hlt s.read.2 rfl
      refine ⟨j + 1, Nat.succ_le_of_lt (Nat.lt_of_le_of_lt hj hlt), ?_, hat⟩
      rintro (_ | i) hi
      · exact h
      · exact hbefore i (Nat.lt_of_succ_lt_succ hi)
    · exact ⟨0, Nat.zero_le _, fun i hi => absurd hi (Nat.not_lt_zero i), h⟩

/-- at the end of its text a session reads the empty formula and stays as it is -/
theorem read_of_rest_eq_nil {s : Session m} (h : s.cursor.rest = []) :
    s.read.1.outcome = .ok (.last .empty) ∧ s.read.2 = s := by
  obtain ⟨source, ⟨k, rest⟩, rename?⟩ := s
  obtain rfl : rest = [] := h
  show (Reading.ofCursor ⟨k, []⟩).outcome = _
    ∧ (⟨source, (Reading.ofCursor ⟨k, []⟩).stop, rename?⟩ : Session m) = _
  rw [Reading.ofCursor_nil]
  exact ⟨rfl, rfl⟩

theorem after_of_rest_eq_nil {s : Session m} (h : s.cursor.rest = []) (n : Nat) :
    s.after n = s := by
  induction n with
  | zero => rfl
  | succ n ih => rw [after, (read_of_rest_eq_nil h).2, ih]

/-- A session that begins behind some tokens reads, each time, what is left as if nothing had been
before.  It stops behind the bracket that it fails at, or else at the end of the text, which it
reaches after as many failures as there are closing brackets left, at the most; from then on it
reads the empty formula and stays where it is. -/
theorem readings_independent (source : String) (skipped n : Nat) :
    let s : Session m := (ofCursor source ((Cursor.ofString source).skip skipped)).after n
    let left := (Text.bytes source).drop s.cursor.offset
    let size := (Text.bytes source).length
    s.cursor.offset ≤ size
      ∧ s.read.1 = (Reading.ofCursor ⟨0, left⟩).shift s.cursor.offset
      ∧ (match s.read.1.outcome with
        | .error (.unmatched b k) => s.read.2.cursor.offset = k ∧ s.cursor.offset < k
            ∧ (Text.bytes source)[k - 1]? = some b.closer.toUInt8
        | _ => s.read.2.cursor.offset = size)
      ∧ ∃ j ≤ closingsIn left,
        (∀ i < j, (s.after i).read.1.IsUnmatched)
        ∧ ¬ (s.after j).read.1.IsUnmatched ∧ (s.after (j + 1)).cursor.offset = size
        ∧ ∀ i > j, (s.after i).read.1.outcome = .ok (.last .empty)
          ∧ (s.after (i + 1)).cursor = (s.after i).cursor := by
  intro s left size
  have hin : s.cursor.IsIn (Text.bytes source) :=
    isIn_cursor_after ((Cursor.IsIn.ofString source).skip skipped) n
  refine ⟨hin.offset_le, ?_, ?_, ?_⟩
  · rw [← Reading.ofCursor_shift]
    exact congrArg Reading.ofCursor hin.eq_shift
  · split
    · next b k h => exact Reading.stop_of_unmatched hin h
    · next h =>
      have hmatched : ¬ (Reading.ofCursor s.cursor).IsUnmatched := fun ⟨b, k, hr⟩ => h b k hr
      show (Reading.ofCursor s.cursor).stop.offset = size
      rw [Reading.stop_eq_toEnd hmatched, hin.offset_toEnd]
  · obtain ⟨j, hj, hbefore, hat⟩ := s.exists_drained
    rw [hin.rest_eq] at hj
    have hend : (s.after (j + 1)).cursor = (s.after j).cursor.toEnd := by
      rw [after_add]
      exact Reading.stop_eq_toEnd hat
    have hrest : (s.after (j + 1)).cursor.rest = [] := by rw [hend]; rfl
    refine ⟨j, hj, hbefore, hat, ?_, ?_⟩
    · rw [hend, (isIn_cursor_after hin j).offset_toEnd]
    · intro i hi
      obtain ⟨d, rfl⟩ := Nat.exists_eq_add_of_le (Nat.succ_le_of_lt hi)
      rw [after_add s (j + 1 + d), after_add s (j + 1), after_of_rest_eq_nil hrest]
      exact ⟨(read_of_rest_eq_nil hrest).1, congrArg cursor (read_of_rest_eq_nil hrest).2⟩

end Session

end LicenseFormula
