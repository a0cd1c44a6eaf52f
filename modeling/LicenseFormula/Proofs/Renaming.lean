import LicenseFormula.Formula.Substitution
import LicenseFormula.Proofs.Sessions

/-!
# Renaming in the order of writing

A renaming is asked once for each name of a formula, the empty ones included, in the order of
writing, and for nothing else.  So its effects are those of asking for the list of names, and the
line is that of the formula with the texts that came back in place of its names.  A session that
writes several formulas asks for the names of each, one formula after the other.

* `mapM_bind_congr`             what comes after a list of effects may count on so many results;
* `Formula.withNames_append`    texts that are left over are handed back;
* `Formula.writeM_eq`           the line of a formula whose names are renamed;
* `Formula.filter_names`        the names that are not empty;
* `recording rename`            the renaming, with a record of all that it is asked for;
* `withNamesEach fs ns`         several formulas with the texts `ns` in place of all their names;
* `Formula.renamed rename state f` the formula with what a renaming with a state makes of its names;
* `Session.normalize_in_order`  all of this for formulas and for sessions.
-/

namespace LicenseFormula

/-! ### names and the texts in their place -/

mutual

theorem Formula.withNames_append (f : Formula) {ns : List String} (ms : List String)
    (h : ns.length = f.names.length) :
    f.withNames (ns ++ ms) = ((f.withNames ns).1, ms) := by
  match f with
  | .last a =>
    rw [Formula.names] at h
    rw [Formula.withNames, Formula.withNames, a.withNames_append ms h]
  | .join a c next =>
    rw [Formula.names, List.length_append] at h
    -- the first texts are for the operand, the others for the row behind it
    obtain ⟨ns, ns', rfl, hlen⟩ : ∃ l r, ns = l ++ r ∧ l.length = a.names.length :=
      ⟨_, _, (List.take_append_drop a.names.length ns).symm, by rw [List.length_take]; omega⟩
    have hlen' : ns'.length = next.names.length := by
      rw [List.length_append] at h
      omega
    rw [Formula.withNames, Formula.withNames, List.append_assoc,
      a.withNames_append (ns' ++ ms) hlen, a.withNames_append ns' hlen,
      next.withNames_append ms hlen']

theorem Operand.withNames_append (a : Operand) {ns : List String} (ms : List String)
    (h : ns.length = a.names.length) :
    a.withNames (ns ++ ms) = ((a.withNames ns).1, ms) := by
  match a with
  | .name text =>
    match ns, h with
    | [n], _ => rfl
  | .group inner =>
    rw [Operand.names] at h
    rw [Operand.withNames, Operand.withNames, inner.withNames_append ms h]

end

mutual

theorem Formula.filter_names (f : Formula) : f.names.filter (· ≠ "") = f.licenses := by
  match f with
  | .last a => exact a.filter_names
  | .join a c next =>
    rw [Formula.names, Formula.licenses, List.filter_append, a.filter_names, next.filter_names]

theorem Operand.filter_names (a : Operand) : a.names.filter (· ≠ "") = a.licenses := by
  match a with
  | .name text =>
    rw [Operand.names, Operand.licenses]
    by_cases h : text = ""
    · rw [if_pos h, h]
      rfl
    · rw [if_neg h, List.filter_cons_of_pos (by simpa using h)]
      rfl
  | .group inner => exact inner.filter_names

end

/-! ### effects in the order of writing -/

section

variable {m : Type → Type} [Monad m] [LawfulMonad m]

/-- what comes after a list of effects may count on as many results -/
theorem mapM_bind_congr {α β γ : Type} {f : α → m β} {xs : List α} {g h : List β → m γ}
    (hgh : ∀ ys, ys.length = xs.length → g ys = h ys) : xs.mapM f >>= g = xs.mapM f >>= h := by
  induction xs generalizing g h with
  | nil => rw [List.mapM_nil, pure_bind, pure_bind, hgh [] rfl]
  | cons x xs ih =>
    simp only [List.mapM_cons, bind_assoc, pure_bind]
    refine bind_congr fun y => ?_
    exact ih fun ys hys => hgh (y :: ys) (by rw [List.length_cons, List.length_cons, hys])

mutual

theorem Formula.piecesM_eq (f : Formula) (rename : String → m String) :
    f.piecesM rename = do
      let news ← f.names.mapM rename
      return (f.withNames news).1.pieces id := by
  match f with
  | .last a => exact a.piecesM_eq rename
  | .join a c next =>
    rw [Formula.piecesM, a.piecesM_eq rename, next.piecesM_eq rename, Formula.names,
      List.mapM_append]
    simp only [bind_assoc, pure_bind]
    refine mapM_bind_congr fun ns hns => bind_congr fun ms => ?_
    rw [Formula.withNames, a.withNames_append ms hns, Formula.pieces_join]

theorem Operand.piecesM_eq (a : Operand) (rename : String → m String) :
    a.piecesM rename = do
      let news ← a.names.mapM rename
      return (a.withNames news).1.pieces id := by
  match a with
  | .name text =>
    rw [Operand.piecesM, Operand.names, List.mapM_cons, List.mapM_nil]
    simp only [bind_assoc, pure_bind]
    rfl
  | .group inner =>
    rw [Operand.piecesM, inner.piecesM_eq rename, Operand.names]
    simp only [bind_assoc, pure_bind]
    rfl

end

/-- the effects of renaming come first, and then the line is written without any -/
theorem Formula.writeM_eq (f : Formula) (rename : String → m String) :
    f.writeM rename = do
      let news ← f.names.mapM rename
      return (f.withNames news).1.text := by
  rw [Formula.writeM, f.piecesM_eq rename, bind_assoc]
  simp only [pure_bind]
  rfl

/-- the formulas with new texts for all their names, in the order of writing -/
def withNamesEach : List Formula → List String → List Formula
  | [], _ => []
  | f :: fs, ns => (f.withNames ns).1 :: withNamesEach fs (f.withNames ns).2

theorem mapM_writeM_eq (fs : List Formula) (rename : String → m String) :
    fs.mapM (Formula.writeM rename) = do
      let news ← (fs.flatMap Formula.names).mapM rename
      return (withNamesEach fs news).map Formula.text := by
  induction fs with
  | nil =>
    rw [List.flatMap_nil, List.mapM_nil, List.mapM_nil, pure_bind]
    rfl
  | cons f fs ih =>
    rw [List.mapM_cons, ih, f.writeM_eq, List.flatMap_cons, List.mapM_append]
    simp only [bind_assoc, pure_bind]
    refine mapM_bind_congr fun ns hns => bind_congr fun ms => ?_
    rw [withNamesEach, f.withNames_append ms hns, List.map_cons]

/-! ### what a renaming is asked for -/

/-- the renaming, which puts each text that it is asked for behind those before -/
def recording (rename : String → m String) (text : String) : StateT (List String) m String := do
  modify (· ++ [text])
  rename text

theorem run_mapM_recording (rename : String → m String) (texts calls : List String) :
    (texts.mapM (recording rename)).run calls = do
      let news ← texts.mapM rename
      return (news, calls ++ texts) := by
  induction texts generalizing calls with
  | nil => simp
  | cons text texts ih => simp [recording, ih]

end

/-! ### renamings with a state -/

section

variable {σ : Type}

/-- the texts that come back for texts that are asked for one after the other -/
def answers (rename : String → StateM σ String) (state : σ) (texts : List String) : List String :=
  ((texts.mapM rename).run state).1

theorem length_answers (rename : String → StateM σ String) (state : σ) (texts : List String) :
    (answers rename state texts).length = texts.length := by
  induction texts generalizing state with
  | nil => rfl
  | cons text texts ih =>
    have hcons : answers rename state (text :: texts) = ((rename text).run state).1
        :: answers rename ((rename text).run state).2 texts := by
      rw [answers, List.mapM_cons]
      rfl
    rw [hcons, List.length_cons, List.length_cons, ih]

/-- the formula with the texts that come back in place of its names -/
def Formula.renamed (rename : String → StateM σ String) (state : σ) (f : Formula) : Formula :=
  (f.withNames (answers rename state f.names)).1

theorem Formula.names_renamed (rename : String → StateM σ String) (state : σ) (f : Formula) :
    (f.renamed rename state).names = answers rename state f.names := by
  have hnames := f.names_withNames _ [] (length_answers rename state f.names)
  rw [List.append_nil] at hnames
  exact hnames.1

theorem Formula.run_writeM (rename : String → StateM σ String) (state : σ) (f : Formula) :
    ((f.writeM rename).run state).1 = (f.renamed rename state).text := by
  rw [f.writeM_eq]
  rfl

end

/-! ### sessions -/

namespace Session

variable {m : Type → Type}

theorem rename?_after (s : Session m) (n : Nat) : (s.after n).rename? = s.rename? := by
  induction n generalizing s with
  | zero => rfl
  | succ n ih => exact ih s.read.2

theorem normalize_after [Monad m] (s : Session m) (n : Nat) :
    (s.after n).normalize = s.normalize := by
  funext f
  rw [normalize, rename?_after]
  rfl

variable [Monad m] [LawfulMonad m]

/-- A renaming is asked once for each name, in the order of writing and carrying its effects on
from one to the next, and the line is that of the formula with the texts that come back.  What it
is asked for, the empty texts left out, are the licenses.  A session does the same for one formula
after the other, whatever it reads in between. -/
theorem normalize_in_order (rename : String → m String) :
    (∀ f : Formula, f.writeM rename = do
      let news ← f.names.mapM rename
      return (f.withNames news).1.text)
    ∧ (∀ (f : Formula) (calls : List String), (f.writeM (recording rename)).run calls = do
      let news ← f.names.mapM rename
      return ((f.withNames news).1.text, calls ++ f.names))
    ∧ (∀ f : Formula, f.names.filter (· ≠ "") = f.licenses)
    ∧ ∀ (s : Session (StateT (List String) m)) (fs : List Formula) (calls : List String),
      (fs.mapM (s.register (recording rename)).normalize).run calls = (do
        let news ← (fs.flatMap Formula.names).mapM rename
        return ((withNamesEach fs news).map Formula.text, calls ++ fs.flatMap Formula.names))
      ∧ ∀ n, ((s.register (recording rename)).after n).normalize
          = (s.register (recording rename)).normalize := by
  refine ⟨fun f => f.writeM_eq rename, fun f calls => ?_, Formula.filter_names,
    fun s fs calls => ⟨?_, normalize_after _⟩⟩
  · rw [f.writeM_eq, StateT.run_bind, run_mapM_recording]
    simp
  · show (fs.mapM (Formula.writeM (recording rename))).run calls = _
    rw [mapM_writeM_eq, StateT.run_bind, run_mapM_recording]
    simp

/-- each text with the number of its call behind it -/
def numbered (text : String) : StateM Nat String := modifyGet fun n => (text ++ toString n, n + 1)

theorem normalize_in_order_numbered :
    ((List.mapM ((ofCursor "" (.ofString "")).register (recording numbered)).normalize
        [.join (.name "b") .and (.ofGroup (.ofName "")), .ofName "b"]).run []).run 1
      = ((["b1 AND ( 2 )", "b3"], ["b", "", "b"]), 4) := by
  rw [((normalize_in_order numbered).2.2.2 _ _ _).1]
  rfl

end Session

end LicenseFormula
