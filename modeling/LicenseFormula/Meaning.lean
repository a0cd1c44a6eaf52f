import LicenseFormula.Formula.Text
import LicenseFormula.Symbol

/-!
# The meaning of symbols

What a list of symbols means, by recursion over its groups.  The list is cut at its connectives
outside all groups; each stretch means one operand.  A stretch without groups means the name of
its words.  In a stretch with groups only what comes last counts: the words behind the last
group, or, when there are none, the meaning of what is in that group.

* `cutRow xs`       the stretch before the first connective outside all groups, and what follows;
* `splitGroup xs`   what is in the group whose bracket stands before `xs`, and what is behind it;
* `lastGroup? xs`   what is in the last group of a stretch, and what is behind it;
* `meaning xs`, `meaningOfStretch xs` the formula of a row, and the operand of a stretch.
-/

namespace LicenseFormula

/-- the stretch before the first connective outside all groups, and the connective with what is
behind it; so many groups are open at the start -/
def cutRow : Nat → List Symbol → List Symbol × Option (Connective × List Symbol)
  | _, [] => ([], none)
  | 0, .connective c :: xs => ([], some (c, xs))
  | depth, .opening b :: xs => (cutRow (depth + 1) xs).map (.opening b :: ·) id
  | depth, .closing b :: xs => (cutRow (depth - 1) xs).map (.closing b :: ·) id
  | depth, x :: xs => (cutRow depth xs).map (x :: ·) id

/-- what is in the outermost open group, and what is behind the bracket that closes it; so many
groups are open in it at the start -/
def splitGroup : Nat → List Symbol → List Symbol × List Symbol
  | _, [] => ([], [])
  | 0, .closing _ :: xs => ([], xs)
  | depth, .opening b :: xs => (splitGroup (depth + 1) xs).map (.opening b :: ·) id
  | depth, .closing b :: xs => (splitGroup (depth - 1) xs).map (.closing b :: ·) id
  | depth, x :: xs => (splitGroup depth xs).map (x :: ·) id

theorem length_splitGroup_le (depth : Nat) (xs : List Symbol) :
    (splitGroup depth xs).1.length ≤ xs.length ∧ (splitGroup depth xs).2.length ≤ xs.length := by
  fun_induction splitGroup depth xs with
  | case1 depth => exact ⟨Nat.le_refl _, Nat.le_refl _⟩
  | case2 b xs => exact ⟨Nat.zero_le _, Nat.le_succ _⟩
  | case3 depth b xs ih => exact ⟨Nat.succ_le_succ ih.1, Nat.le_succ_of_le ih.2⟩
  | case4 depth b xs hdepth ih => exact ⟨Nat.succ_le_succ ih.1, Nat.le_succ_of_le ih.2⟩
  | case5 depth x xs hstop hopening hclosing ih =>
    exact ⟨Nat.succ_le_succ ih.1, Nat.le_succ_of_le ih.2⟩

/-- what is in the last group outside all others, and what is behind it -/
def lastGroup? : List Symbol → Option (List Symbol × List Symbol)
  | [] => none
  | .opening _ :: xs =>
    have := length_splitGroup_le 0 xs
    some ((lastGroup? (splitGroup 0 xs).2).getD (splitGroup 0 xs))
  | _ :: xs => lastGroup? xs
termination_by xs => xs.length
decreasing_by all_goals (simp only [List.length_cons]; omega)

def wordsOf (xs : List Symbol) : List String :=
  xs.filterMap fun x => match x with
    | .word text => some text
    | _ => none

theorem length_cutRow_le (depth : Nat) (xs : List Symbol) :
    (cutRow depth xs).1.length ≤ xs.length
      ∧ ∀ c ys, (cutRow depth xs).2 = some (c, ys) → ys.length < xs.length := by
  fun_induction cutRow depth xs with
  | case1 depth =>
    refine ⟨Nat.le_refl _, ?_⟩
    intro c ys h
    cases h
  | case2 d xs =>
    refine ⟨Nat.zero_le _, ?_⟩
    intro c ys h
    obtain ⟨rfl, rfl⟩ := Prod.mk.inj (Option.some.inj h)
    exact Nat.lt_succ_self _
  | case3 depth b xs ih =>
    exact ⟨Nat.succ_le_succ ih.1, fun c ys h => Nat.lt_succ_of_lt (ih.2 c ys h)⟩
  | case4 depth b xs ih =>
    exact ⟨Nat.succ_le_succ ih.1, fun c ys h => Nat.lt_succ_of_lt (ih.2 c ys h)⟩
  | case5 depth x xs hstop hopening hclosing ih =>
    exact ⟨Nat.succ_le_succ ih.1, fun c ys h => Nat.lt_succ_of_lt (ih.2 c ys h)⟩

theorem length_lastGroup?_lt {xs inside behind : List Symbol}
    (h : lastGroup? xs = some (inside, behind)) : inside.length < xs.length := by
  fun_induction lastGroup? xs with
  | case1 => simp at h
  | case2 b xs hlen ih =>
    cases hl : lastGroup? (splitGroup 0 xs).2 with
    | none =>
      rw [hl, Option.getD_none] at h
      rw [Option.some.inj h] at hlen
      exact Nat.lt_succ_of_le hlen.1
    | some p =>
      rw [hl, Option.getD_some] at h
      exact Nat.lt_succ_of_lt (Nat.lt_of_lt_of_le (ih (hl.trans h)) hlen.2)
  | case3 x xs hx ih => exact Nat.lt_succ_of_lt (ih h)

mutual

/-- the formula that a row of symbols means -/
def meaning (xs : List Symbol) : Formula :=
  match _h : (cutRow 0 xs).2 with
  | none => .last (meaningOfStretch (cutRow 0 xs).1)
  | some (c, next) => .join (meaningOfStretch (cutRow 0 xs).1) c (meaning next)
termination_by 2 * xs.length + 1
decreasing_by
  all_goals have hcut := length_cutRow_le 0 xs
  · omega
  · omega
  · have := hcut.2 c next _h
    omega

/-- the operand that a stretch between connectives means -/
def meaningOfStretch (xs : List Symbol) : Operand :=
  match _h : lastGroup? xs with
  | none => .name (lineOf (wordsOf xs))
  | some (inside, behind) =>
    match wordsOf behind with
    | [] => .group (meaning inside)
    | ws => .name (lineOf ws)
termination_by 2 * xs.length
decreasing_by
  have := length_lastGroup?_lt _h
  omega

end

end LicenseFormula
