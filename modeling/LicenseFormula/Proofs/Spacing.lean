import Mathlib
import LicenseFormula.Proofs.Renaming

/-!
# The line of a formula and its spaces

The pieces of a formula are joined all at once, but the line is the same when the lines of its
parts are joined, those of nested groups first, and parts without text are left out.  Between
pieces there is one space, and there is none at the ends; so a line that begins or ends with a
space, or has two in a row, has them from the text of a name.

* `joinLines ls`                       the lines `ls` joined, the empty ones left out;
* `Formula.line rename f`, `Operand.line rename a` the line put together from those of the parts;
* `lineOf_flatten`                     pieces may be joined in groups first;
* `Formula.write_eq`, `Operand.write_eq` the line that is written is the one put together;
* `IsLoose s`                          `s` begins or ends with a space, or has two in a row;
* `isLoose_lineOf`                     a line is loose when one of its pieces is;
* `Formula.exists_isLoose_piece_iff`   the pieces that are loose are texts of names;
* `Formula.write_eq_line`              all of this for formulas and operands.
-/

namespace LicenseFormula

/-! ### lines put together -/

/-- the lines joined, the empty ones left out -/
def joinLines (lines : List String) : String := lineOf (lines.filter (· ≠ ""))

mutual

/-- the line of a formula, put together from the lines of its parts -/
def Formula.line (rename : String → String) : Formula → String
  | .last a => a.line rename
  | .join a c next => joinLines [a.line rename, c.text, next.line rename]

/-- the line of an operand, put together from the line of what is inside -/
def Operand.line (rename : String → String) : Operand → String
  | .name text => rename text
  | .group inner =>
    if inner.line rename = "" then "( )" else "( " ++ inner.line rename ++ " )"

end

theorem lineOf_eq_empty_iff {ps : List String} (h : ∀ p ∈ ps, p ≠ "") :
    lineOf ps = "" ↔ ps = [] := by
  cases ps with
  | nil => exact iff_of_true lineOf_nil rfl
  | cons p ps =>
    exact iff_of_false (lineOf_cons_ne_empty (h p List.mem_cons_self) ps) (List.cons_ne_nil _ _)

theorem lineOf_append_eq {ps qs : List String} (hp : ps ≠ []) (hq : ∀ q ∈ qs, q ≠ "") :
    lineOf (ps ++ qs)
      = if lineOf qs = "" then lineOf ps else lineOf ps ++ " " ++ lineOf qs := by
  by_cases hqs : qs = []
  · rw [hqs, List.append_nil, lineOf_nil, if_pos rfl]
  · rw [if_neg (mt (lineOf_eq_empty_iff hq).mp hqs), lineOf_append hp hqs]

theorem joinLines_cons {l : String} (hl : l ≠ "") (ls : List String) :
    joinLines (l :: ls) = if joinLines ls = "" then l else l ++ " " ++ joinLines ls := by
  have hls : ∀ k ∈ ls.filter (· ≠ ""), k ≠ "" :=
    fun k hk => of_decide_eq_true (List.mem_filter.mp hk).2
  have hfilter : (l :: ls).filter (· ≠ "") = l :: ls.filter (· ≠ "") :=
    List.filter_cons_of_pos (decide_eq_true hl)
  have hline := lineOf_append_eq (List.cons_ne_nil l []) hls
  rw [List.singleton_append, lineOf_singleton, ← hfilter] at hline
  exact hline

theorem joinLines_cons_empty (ls : List String) : joinLines ("" :: ls) = joinLines ls := rfl

theorem joinLines_group (l : String) :
    joinLines ["(", l, ")"] = if l = "" then "( )" else "( " ++ l ++ " )" := by
  have hend : joinLines [")"] = ")" := rfl
  by_cases hl : l = ""
  · rw [hl, if_pos rfl]
    rfl
  · have hinner : joinLines [l, ")"] = l ++ " " ++ ")" := by
      rw [joinLines_cons hl, hend, if_neg (by decide)]
    have hne : l ++ " " ++ ")" ≠ "" := by simp
    rw [if_neg hl, joinLines_cons (by decide), hinner, if_neg hne]
    simp [String.append_assoc]

/-- pieces may be joined in groups first -/
theorem lineOf_flatten {pss : List (List String)} (h : ∀ p ∈ pss.flatten, p ≠ "") :
    lineOf pss.flatten = joinLines (pss.map lineOf) := by
  induction pss with
  | nil => rfl
  | cons ps pss ih =>
    rw [List.flatten_cons, List.forall_mem_append] at h
    rw [List.flatten_cons, List.map_cons]
    by_cases hps : ps = []
    · rw [hps, lineOf_nil, joinLines_cons_empty, List.nil_append, ih h.2]
    · rw [lineOf_append_eq hps h.2, ih h.2,
        joinLines_cons (mt (lineOf_eq_empty_iff h.1).mp hps)]

section

variable (rename : String → String)

mutual

theorem Formula.pieces_ne_empty (f : Formula) : ∀ p ∈ f.pieces rename, p ≠ "" := by
  match f with
  | .last a => exact a.pieces_ne_empty
  | .join a c next =>
    rw [Formula.pieces_join, List.forall_mem_append, List.forall_mem_cons]
    exact ⟨a.pieces_ne_empty, c.text_ne_empty, next.pieces_ne_empty⟩

theorem Operand.pieces_ne_empty (a : Operand) : ∀ p ∈ a.pieces rename, p ≠ "" := by
  match a with
  | .name text =>
    rw [Operand.pieces_name]
    split
    · simp
    · next h => exact List.forall_mem_singleton.mpr h
  | .group inner =>
    rw [Operand.pieces_group, List.forall_mem_append, List.forall_mem_cons]
    exact ⟨⟨by decide, inner.pieces_ne_empty⟩, List.forall_mem_singleton.mpr (by decide)⟩

end

mutual

theorem Formula.write_eq (f : Formula) : f.write rename = f.line rename := by
  match f with
  | .last a => exact a.write_eq
  | .join a c next =>
    have hpieces : (Formula.join a c next).pieces rename
        = [a.pieces rename, [c.text], next.pieces rename].flatten := by
      rw [Formula.pieces_join]
      simp
    have hne := (Formula.join a c next).pieces_ne_empty rename
    rw [hpieces] at hne
    rw [Formula.write, hpieces, lineOf_flatten hne, Formula.line, ← a.write_eq,
      ← next.write_eq]
    rfl

theorem Operand.write_eq (a : Operand) : a.write rename = a.line rename := by
  match a with
  | .name text =>
    rw [Operand.write, Operand.pieces_name, Operand.line]
    split
    · next h => rw [h, lineOf_nil]
    · exact lineOf_singleton _
  | .group inner =>
    have hpieces : (Operand.group inner).pieces rename
        = [["("], inner.pieces rename, [")"]].flatten := by
      rw [Operand.pieces_group]
      simp
    have hne := (Operand.group inner).pieces_ne_empty rename
    rw [hpieces] at hne
    rw [Operand.write, hpieces, lineOf_flatten hne, Operand.line, ← inner.write_eq]
    exact joinLines_group _

end

end

/-! ### spaces -/

/-- the text begins or ends with a space, or has two in a row -/
def IsLoose (s : String) : Prop :=
  s.toList.head? = some ' ' ∨ s.toList.getLast? = some ' ' ∨ [' ', ' '] <:+: s.toList

instance : DecidablePred IsLoose := fun _ => inferInstanceAs (Decidable (_ ∨ _ ∨ _))

def NotBothSpaces (c d : Char) : Prop := ¬ (c = ' ' ∧ d = ' ')

/-- no two spaces in a row, also when there is one more at either end -/
def IsTight (cs : List Char) : Prop := (' ' :: (cs ++ [' '])).IsChain NotBothSpaces

theorem isChain_notBothSpaces_iff (cs : List Char) :
    cs.IsChain NotBothSpaces ↔ ¬ [' ', ' '] <:+: cs := by
  rw [List.isChain_iff_forall_rel_of_append_cons_cons]
  constructor
  · rintro h ⟨as, bs, hcs⟩
    refine @h ' ' ' ' as bs ?_ ⟨rfl, rfl⟩
    rw [← hcs, List.append_assoc]
    rfl
  · rintro h c d as bs rfl ⟨rfl, rfl⟩
    exact h ⟨as, bs, by rw [List.append_assoc]; rfl⟩

theorem isTight_append_space (cs ds : List Char) :
    IsTight (cs ++ ' ' :: ds) ↔ IsTight cs ∧ IsTight ds := by
  have hlist : ' ' :: ((cs ++ ' ' :: ds) ++ [' ']) = (' ' :: cs) ++ ' ' :: (ds ++ [' ']) := by
    simp
  rw [IsTight, hlist, List.isChain_split]
  rfl

theorem isTight_toList_iff {s : String} (h : s ≠ "") : IsTight s.toList ↔ ¬ IsLoose s := by
  have hne : s.toList ≠ [] := by simpa using h
  have hhead : (∀ c ∈ (s.toList ++ [' ']).head?, NotBothSpaces ' ' c)
      ↔ s.toList.head? ≠ some ' ' := by
    rw [List.head?_append_of_ne_nil _ hne]
    cases s.toList.head? <;> simp [NotBothSpaces]
  have hlast : (∀ c ∈ s.toList.getLast?, ∀ d ∈ [' '].head?, NotBothSpaces c d)
      ↔ s.toList.getLast? ≠ some ' ' := by
    cases s.toList.getLast? <;> simp [NotBothSpaces]
  rw [IsTight, List.isChain_cons, List.isChain_append, hhead, hlast, isChain_notBothSpaces_iff,
    IsLoose]
  have hone : [' '].IsChain NotBothSpaces := List.isChain_singleton _
  tauto

theorem isLoose_append_space {s t : String} (hs : s ≠ "") (ht : t ≠ "") :
    IsLoose (s ++ " " ++ t) ↔ IsLoose s ∨ IsLoose t := by
  have hne : s ++ " " ++ t ≠ "" := by simp [hs]
  have hlist : (s ++ " " ++ t).toList = s.toList ++ ' ' :: t.toList := by simp
  have htight := isTight_append_space s.toList t.toList
  rw [← hlist, isTight_toList_iff hne, isTight_toList_iff hs, isTight_toList_iff ht,
    ← not_or] at htight
  exact not_iff_not.mp htight

theorem isLoose_lineOf {ps : List String} (h : ∀ p ∈ ps, p ≠ "") :
    IsLoose (lineOf ps) ↔ ∃ p ∈ ps, IsLoose p := by
  match ps with
  | [] => exact iff_of_false (by decide) (by simp)
  | [p] => rw [lineOf_singleton, List.exists_mem_cons_iff]; simp
  | p :: q :: ps =>
    obtain ⟨hp, hqs⟩ := List.forall_mem_cons.mp h
    have hline := lineOf_cons_ne_empty (hqs q List.mem_cons_self) ps
    rw [lineOf_cons_cons, isLoose_append_space hp hline, isLoose_lineOf hqs,
      List.exists_mem_cons_iff IsLoose p]

theorem isLoose_text (c : Connective) : ¬ IsLoose c.text := by
  cases c <;> decide

section

variable (rename : String → String)

mutual

theorem Formula.exists_isLoose_piece_iff (f : Formula) : (∃ p ∈ f.pieces rename, IsLoose p)
    ↔ ∃ text ∈ f.names, rename text ≠ "" ∧ IsLoose (rename text) := by
  match f with
  | .last a => exact a.exists_isLoose_piece_iff
  | .join a c next =>
    have ha := a.exists_isLoose_piece_iff
    have hnext := next.exists_isLoose_piece_iff
    simp only [Formula.pieces_join, Formula.names, List.mem_append, List.mem_cons, or_and_right,
      exists_or, exists_eq_left, isLoose_text, false_or, ha, hnext]

theorem Operand.exists_isLoose_piece_iff (a : Operand) : (∃ p ∈ a.pieces rename, IsLoose p)
    ↔ ∃ text ∈ a.names, rename text ≠ "" ∧ IsLoose (rename text) := by
  match a with
  | .name text =>
    rw [Operand.pieces_name, Operand.names]
    split
    · next h => simp [h]
    · next h => simp [h]
  | .group inner =>
    have hopener : ¬ IsLoose "(" := by decide
    have hcloser : ¬ IsLoose ")" := by decide
    have hinner := inner.exists_isLoose_piece_iff
    simp only [Operand.pieces_group, Operand.names, List.mem_append, List.mem_cons,
      List.not_mem_nil, or_false, or_and_right, exists_or, exists_eq_left, hopener, hcloser,
      false_or, hinner]

end

end

theorem Formula.isLoose_write_iff (rename : String → String) (f : Formula) :
    IsLoose (f.write rename) ↔ ∃ text ∈ f.names, rename text ≠ "" ∧ IsLoose (rename text) := by
  rw [Formula.write, isLoose_lineOf (f.pieces_ne_empty rename), f.exists_isLoose_piece_iff rename]

/-! ### formulas and operands -/

/-- The line that is written is the one put together from the lines of the parts, for a formula as
for an operand, and whatever state the renaming keeps.  It begins or ends with a space, or has two
in a row, exactly when the new text of a name does. -/
theorem Formula.write_eq_line (f : Formula) :
    (∀ rename : String → String, f.write rename = f.line rename
      ∧ (IsLoose (f.write rename) ↔ ∃ text ∈ f.names, rename text ≠ "" ∧ IsLoose (rename text)))
    ∧ (∀ {σ : Type} (rename : String → StateM σ String) (state : σ),
      ((f.writeM rename).run state).1 = (f.renamed rename state).line id
      ∧ (IsLoose ((f.writeM rename).run state).1
        ↔ ∃ new ∈ answers rename state f.names, new ≠ "" ∧ IsLoose new))
    ∧ ∀ a : Operand, (∀ rename : String → String, a.write rename = a.line rename)
      ∧ toString a = a.line id := by
  refine ⟨fun rename => ⟨f.write_eq rename, f.isLoose_write_iff rename⟩,
    fun rename state => ?_, fun a => ⟨fun rename => a.write_eq rename, a.write_eq id⟩⟩
  rw [f.run_writeM, ← f.names_renamed]
  exact ⟨(f.renamed rename state).write_eq id, (f.renamed rename state).isLoose_write_iff id⟩

example : (Formula.join .empty .or (.ofGroup (.ofName "a"))).line (fun _ => "") = "OR ( )" := by
  decide

end LicenseFormula
