import LicenseFormula.Assembly
import LicenseFormula.Meaning
import LicenseFormula.Proofs.Lexing

/-!
# Rows of symbols and what they mean

The symbols of a formula form a row: stretches joined by connectives, a stretch being words and
groups side by side, and a group a row between brackets of one style.  On a row the scans behind
`meaning` go where they should: what is inside a group is passed over as a whole.  So the meaning
of a row follows from the meanings of its parts, and from the left as well as from the right.

* `IsRow`, `IsStretch`         the rows, and what stands between their connectives;
* `Nests.row`                  rows have each property that only looks at how brackets nest;
* `IsRow.balanced`             the brackets of a row are balanced;
* `meaning_last`, `meaning_join` a row is cut at its first connective, if it has one;
* `meaningOfStretch_words`, `meaningOfStretch_group`
                               what a stretch means, by what comes last in it;
* `IsRow.append`, `IsRow.addWord`, `IsRow.addGroup`
                               what a row means when it goes on with a connective, a word, a group;
* `IsRow.connectives_meaning`  the connectives outside all groups join what the row means.
-/

namespace LicenseFormula

mutual

/-- the rows: stretches joined by connectives -/
inductive IsRow : List Symbol → Prop where
  | last {xs : List Symbol} : IsStretch xs → IsRow xs
  | join {xs next : List Symbol} (c : Connective) :
    IsStretch xs → IsRow next → IsRow (xs ++ .connective c :: next)

/-- the stretches: words only, or groups with words between and behind them -/
inductive IsStretch : List Symbol → Prop where
  | words {ws : List String} : (∀ w ∈ ws, w ≠ "") → IsStretch (ws.map .word)
  | group (b : Bracket) {before inside : List Symbol} {ws : List String} :
    IsStretch before → IsRow inside → (∀ w ∈ ws, w ≠ "") →
      IsStretch (before ++ .opening b :: (inside ++ .closing b :: ws.map .word))

end

/-! ### nesting -/

/-- a property that is kept when symbols are put side by side or into a group -/
structure Nests (P : List Symbol → Prop) : Prop where
  nil : P []
  word (w : String) : w ≠ "" → P [.word w]
  connective (c : Connective) : P [.connective c]
  append {xs ys : List Symbol} : P xs → P ys → P (xs ++ ys)
  group (b : Bracket) {xs : List Symbol} : P xs → P (.opening b :: (xs ++ [.closing b]))

theorem Nests.words {P : List Symbol → Prop} (hP : Nests P) {ws : List String}
    (h : ∀ w ∈ ws, w ≠ "") : P (ws.map .word) := by
  induction ws with
  | nil => exact hP.nil
  | cons w ws ih =>
    have hw : P [.word w] := hP.word w (h w List.mem_cons_self)
    exact hP.append hw (ih fun v hv => h v (List.mem_cons_of_mem _ hv))

mutual

theorem Nests.row {P : List Symbol → Prop} (hP : Nests P) {xs : List Symbol} (h : IsRow xs) :
    P xs := by
  match h with
  | .last hs => exact hP.stretch hs
  | .join c hs hnext => exact hP.append (hP.stretch hs) (hP.append (hP.connective c) (hP.row hnext))

theorem Nests.stretch {P : List Symbol → Prop} (hP : Nests P) {xs : List Symbol}
    (h : IsStretch xs) : P xs := by
  match h with
  | .words hws => exact hP.words hws
  | .group b hbefore hinside hws =>
    have hrest := hP.append (hP.group b (hP.row hinside)) (hP.words hws)
    rw [List.cons_append, List.append_assoc] at hrest
    exact hP.append (hP.stretch hbefore) hrest

end

theorem nests_balanced : Nests fun xs => Balanced (xs.filterMap Symbol.edge?) where
  nil := .nil
  word _ _ := .nil
  connective _ := .nil
  append hx hy := by
    rw [List.filterMap_append]
    exact hx.append hy
  group b xs hx := by
    have h := Balanced.group b hx .nil
    rw [List.filterMap_cons, List.filterMap_append]
    exact h

theorem IsRow.balanced {xs : List Symbol} (h : IsRow xs) :
    Balanced (xs.filterMap Symbol.edge?) :=
  nests_balanced.row h

/-! ### the scans behind the meaning -/

theorem map_append_map {α : Type} (xs ys : List Symbol) (p : List Symbol × α) :
    (p.map (ys ++ ·) id).map (xs ++ ·) id = p.map (xs ++ ys ++ ·) id := by
  simp only [Prod.map, List.append_assoc, id_eq]

theorem splitGroup_opening (depth : Nat) (b : Bracket) (xs : List Symbol) :
    splitGroup depth (.opening b :: xs)
      = (splitGroup (depth + 1) xs).map ([.opening b] ++ ·) id := by
  cases depth <;> rfl

theorem splitGroup_closing (depth : Nat) (b : Bracket) (xs : List Symbol) :
    splitGroup (depth + 1) (.closing b :: xs)
      = (splitGroup depth xs).map ([.closing b] ++ ·) id := rfl

theorem nests_splitGroup : Nests fun xs => ∀ depth ys,
    splitGroup depth (xs ++ ys) = (splitGroup depth ys).map (xs ++ ·) id where
  nil _ _ := rfl
  word w _ depth ys := by cases depth <;> rfl
  connective c depth ys := by cases depth <;> rfl
  append hx hy depth ys := by rw [List.append_assoc, hx, hy, map_append_map]
  group b xs hx depth ys := by
    have hinside := hx (depth + 1) (.closing b :: ys)
    rw [splitGroup_closing, map_append_map] at hinside
    rw [List.cons_append, List.append_assoc, List.singleton_append, splitGroup_opening, hinside,
      map_append_map]
    rfl

theorem IsRow.splitGroup_closing {xs : List Symbol} (h : IsRow xs) (b : Bracket)
    (ys : List Symbol) : splitGroup 0 (xs ++ .closing b :: ys) = (xs, ys) := by
  rw [nests_splitGroup.row h, splitGroup]
  simp

theorem cutRow_opening (depth : Nat) (b : Bracket) (xs : List Symbol) :
    cutRow depth (.opening b :: xs) = (cutRow (depth + 1) xs).map ([.opening b] ++ ·) id := by
  cases depth <;> rfl

theorem cutRow_closing (depth : Nat) (b : Bracket) (xs : List Symbol) :
    cutRow (depth + 1) (.closing b :: xs) = (cutRow depth xs).map ([.closing b] ++ ·) id := rfl

/-- a group is passed over when the scan passes over what is inside it -/
theorem cutRow_group (depth : Nat) (b : Bracket) {xs : List Symbol}
    (h : ∀ ys, cutRow (depth + 1) (xs ++ ys) = (cutRow (depth + 1) ys).map (xs ++ ·) id)
    (ys : List Symbol) :
    cutRow depth (.opening b :: (xs ++ .closing b :: ys))
      = (cutRow depth ys).map (.opening b :: (xs ++ [.closing b]) ++ ·) id := by
  have hinside := h (.closing b :: ys)
  rw [cutRow_closing, map_append_map] at hinside
  rw [cutRow_opening, hinside, map_append_map]
  rfl

theorem nests_cutRow : Nests fun xs => ∀ depth ys,
    cutRow (depth + 1) (xs ++ ys) = (cutRow (depth + 1) ys).map (xs ++ ·) id where
  nil _ _ := rfl
  word _ _ _ _ := rfl
  connective _ _ _ := rfl
  append hx hy depth ys := by rw [List.append_assoc, hx, hy, map_append_map]
  group b xs hx depth ys := by
    rw [List.cons_append, List.append_assoc]
    exact cutRow_group (depth + 1) b (hx (depth + 1)) ys

theorem cutRow_words (ws : List String) (ys : List Symbol) :
    cutRow 0 (ws.map .word ++ ys) = (cutRow 0 ys).map (ws.map .word ++ ·) id := by
  induction ws with
  | nil => rfl
  | cons w ws ih =>
    show (cutRow 0 (ws.map .word ++ ys)).map ([.word w] ++ ·) id = _
    rw [ih, map_append_map]
    rfl

theorem IsStretch.cutRow_append {xs : List Symbol} (h : IsStretch xs) (ys : List Symbol) :
    cutRow 0 (xs ++ ys) = (cutRow 0 ys).map (xs ++ ·) id := by
  match h with
  | .words _ => exact cutRow_words _ ys
  | @IsStretch.group b before inside ws hbefore hinside _ =>
    have hshape : before ++ .opening b :: (inside ++ .closing b :: ws.map .word) ++ ys
        = before ++ .opening b :: (inside ++ .closing b :: (ws.map .word ++ ys)) := by
      simp
    have hgroup := cutRow_group 0 b (nests_cutRow.row hinside 0) (ws.map .word ++ ys)
    rw [cutRow_words, map_append_map] at hgroup
    rw [hshape, hbefore.cutRow_append, hgroup, map_append_map]
    simp

theorem meaning_last {xs : List Symbol} (h : IsStretch xs) :
    meaning xs = .last (meaningOfStretch xs) := by
  have hcut : cutRow 0 xs = (xs, none) := by
    have hnil := h.cutRow_append []
    rwa [List.append_nil, cutRow, Prod.map, List.append_nil] at hnil
  rw [meaning]
  split
  · rw [hcut]
  · next hsome => rw [hcut] at hsome; cases hsome

theorem meaning_join {xs : List Symbol} (h : IsStretch xs) (c : Connective)
    (next : List Symbol) :
    meaning (xs ++ .connective c :: next) = .join (meaningOfStretch xs) c (meaning next) := by
  have hcut : cutRow 0 (xs ++ .connective c :: next) = (xs, some (c, next)) := by
    rw [h.cutRow_append, cutRow, Prod.map, List.append_nil]
    rfl
  rw [meaning]
  split
  · next hnone => rw [hcut] at hnone; cases hnone
  · next d ys hsome =>
    rw [hcut] at hsome ⊢
    obtain ⟨rfl, rfl⟩ := Prod.mk.inj (Option.some.inj hsome)
    rfl

/-! ### what a stretch means -/

theorem wordsOf_words (ws : List String) : wordsOf (ws.map .word) = ws := by
  induction ws with
  | nil => rfl
  | cons w ws ih => exact congrArg (w :: ·) ih

theorem lastGroup?_words_append (ws : List String) (xs : List Symbol) :
    lastGroup? (ws.map .word ++ xs) = lastGroup? xs := by
  induction ws with
  | nil => rfl
  | cons w ws ih =>
    show lastGroup? (.word w :: (ws.map .word ++ xs)) = _
    rw [lastGroup?, ih]
    intro b h
    cases h

theorem lastGroup?_words (ws : List String) : lastGroup? (ws.map .word) = none := by
  have h := lastGroup?_words_append ws []
  rwa [List.append_nil, lastGroup?] at h

theorem lastGroup?_opening (b : Bracket) (xs : List Symbol) :
    lastGroup? (.opening b :: xs)
      = some ((lastGroup? (splitGroup 0 xs).2).getD (splitGroup 0 xs)) := by
  rw [lastGroup?]

theorem IsStretch.lastGroup?_append {xs : List Symbol} (h : IsStretch xs) (b : Bracket)
    (ys : List Symbol) : lastGroup? (xs ++ .opening b :: ys) = lastGroup? (.opening b :: ys) := by
  match h with
  | .words _ => exact lastGroup?_words_append _ _
  | @IsStretch.group k before inside ws hbefore hinside _ =>
    have hsplit := hinside.splitGroup_closing k (ws.map .word ++ .opening b :: ys)
    rw [List.append_assoc, List.cons_append, List.append_assoc, List.cons_append,
      hbefore.lastGroup?_append, lastGroup?_opening, hsplit]
    -- the group at `k` is not the last one: the one at `b` is still behind it
    show some ((lastGroup? (ws.map .word ++ .opening b :: ys)).getD _) = _
    rw [lastGroup?_words_append, lastGroup?_opening, Option.getD_some]

theorem lastGroup?_group (b : Bracket) {before inside : List Symbol} (hbefore : IsStretch before)
    (hinside : IsRow inside) (ws : List String) :
    lastGroup? (before ++ .opening b :: (inside ++ .closing b :: ws.map .word))
      = some (inside, ws.map .word) := by
  rw [hbefore.lastGroup?_append, lastGroup?_opening, hinside.splitGroup_closing, lastGroup?_words,
    Option.getD_none]

theorem meaningOfStretch_words (ws : List String) :
    meaningOfStretch (ws.map .word) = .name (lineOf ws) := by
  rw [meaningOfStretch]
  split
  · rw [wordsOf_words]
  · next hsome => rw [lastGroup?_words] at hsome; cases hsome

theorem meaningOfStretch_group (b : Bracket) {before inside : List Symbol}
    (hbefore : IsStretch before) (hinside : IsRow inside) (ws : List String) :
    meaningOfStretch (before ++ .opening b :: (inside ++ .closing b :: ws.map .word))
      = if ws = [] then .group (meaning inside) else .name (lineOf ws) := by
  have hlast := lastGroup?_group b hbefore hinside ws
  rw [meaningOfStretch]
  split
  · next hnone => rw [hlast] at hnone; cases hnone
  · next hsome =>
    rw [hlast] at hsome
    obtain ⟨rfl, rfl⟩ := Prod.mk.inj (Option.some.inj hsome)
    rw [wordsOf_words]
    cases ws <;> rfl

/-! ### rows that go on -/

theorem addWord_lineOf {ws : List String} (hws : ∀ w ∈ ws, w ≠ "") (w : String) :
    (Operand.name (lineOf ws)).addWord w = .name (lineOf (ws ++ [w])) := by
  cases ws with
  | nil => rw [lineOf_nil, List.nil_append, lineOf_singleton]; rfl
  | cons v ws =>
    have hne := lineOf_cons_ne_empty (hws v List.mem_cons_self) ws
    rw [Operand.addWord, if_neg hne, lineOf_append (List.cons_ne_nil v ws) (List.cons_ne_nil w []),
      lineOf_singleton]

theorem IsStretch.addWord {xs : List Symbol} (h : IsStretch xs) {w : String} (hw : w ≠ "") :
    IsStretch (xs ++ [.word w])
      ∧ meaningOfStretch (xs ++ [.word w]) = (meaningOfStretch xs).addWord w := by
  have hsnoc : ∀ {ws : List String}, (∀ v ∈ ws, v ≠ "") → ∀ v ∈ ws ++ [w], v ≠ "" := by
    intro ws hws v hv
    rcases List.mem_append.mp hv with hv | hv
    · exact hws v hv
    · rwa [List.mem_singleton.mp hv]
  match h with
  | @IsStretch.words ws hws =>
    have hmap : ws.map Symbol.word ++ [.word w] = (ws ++ [w]).map .word := by
      rw [List.map_append]
      rfl
    rw [hmap, meaningOfStretch_words, meaningOfStretch_words]
    exact ⟨.words (hsnoc hws), (addWord_lineOf hws w).symm⟩
  | @IsStretch.group b before inside ws hbefore hinside hws =>
    have hmap : before ++ .opening b :: (inside ++ .closing b :: ws.map .word) ++ [.word w]
        = before ++ .opening b :: (inside ++ .closing b :: (ws ++ [w]).map .word) := by
      simp
    rw [hmap, meaningOfStretch_group b hbefore hinside, meaningOfStretch_group b hbefore hinside]
    refine ⟨.group b hbefore hinside (hsnoc hws), ?_⟩
    cases ws with
    | nil => rfl
    | cons v ws => exact (addWord_lineOf hws w).symm

theorem IsStretch.addGroup {xs inside : List Symbol} (h : IsStretch xs) (b : Bracket)
    (hi : IsRow inside) :
    IsStretch (xs ++ .opening b :: (inside ++ [.closing b]))
      ∧ meaningOfStretch (xs ++ .opening b :: (inside ++ [.closing b]))
        = .group (meaning inside) := by
  have hnone : ∀ w ∈ ([] : List String), w ≠ "" := fun _ hw => nomatch hw
  exact ⟨.group b h hi hnone, meaningOfStretch_group b h hi []⟩

/-- the formula with another last operand -/
def Formula.mapLast (f : Operand → Operand) : Formula → Formula
  | last a => last (f a)
  | join a c next => join a c (next.mapLast f)

theorem IsRow.append {xs ys : List Symbol} (hx : IsRow xs) (c : Connective) (hy : IsRow ys) :
    IsRow (xs ++ .connective c :: ys)
      ∧ meaning (xs ++ .connective c :: ys) = (meaning xs).append c (meaning ys) := by
  match hx with
  | .last hs =>
    rw [meaning_join hs, meaning_last hs]
    exact ⟨.join c hs hy, rfl⟩
  | .join d hs hnext =>
    obtain ⟨hrow, hmeaning⟩ := hnext.append c hy
    rw [List.append_assoc, List.cons_append, meaning_join hs, meaning_join hs, hmeaning]
    exact ⟨.join d hs hrow, rfl⟩

/-- what changes the last operand of every stretch changes that of every row -/
theorem IsRow.mapLast {xs : List Symbol} (hx : IsRow xs) {ys : List Symbol}
    {f : Operand → Operand}
    (h : ∀ zs, IsStretch zs →
      IsStretch (zs ++ ys) ∧ meaningOfStretch (zs ++ ys) = f (meaningOfStretch zs)) :
    IsRow (xs ++ ys) ∧ meaning (xs ++ ys) = (meaning xs).mapLast f := by
  match hx with
  | .last hs =>
    obtain ⟨hstretch, hmeaning⟩ := h _ hs
    rw [meaning_last hs, meaning_last hstretch, hmeaning]
    exact ⟨.last hstretch, rfl⟩
  | .join d hs hnext =>
    obtain ⟨hrow, hmeaning⟩ := hnext.mapLast h
    rw [List.append_assoc, List.cons_append, meaning_join hs, meaning_join hs, hmeaning]
    exact ⟨.join d hs hrow, rfl⟩

theorem IsRow.addWord {xs : List Symbol} (h : IsRow xs) {w : String} (hw : w ≠ "") :
    IsRow (xs ++ [.word w])
      ∧ meaning (xs ++ [.word w]) = (meaning xs).mapLast (·.addWord w) :=
  h.mapLast fun _ hs => hs.addWord hw

theorem IsRow.addGroup {xs inside : List Symbol} (h : IsRow xs) (b : Bracket)
    (hi : IsRow inside) :
    IsRow (xs ++ .opening b :: (inside ++ [.closing b]))
      ∧ meaning (xs ++ .opening b :: (inside ++ [.closing b]))
        = (meaning xs).mapLast fun _ => .group (meaning inside) :=
  h.mapLast fun _ hs => hs.addGroup b hi

theorem isRow_words {ws : List String} (h : ∀ w ∈ ws, w ≠ "") :
    IsRow (ws.map .word) ∧ meaning (ws.map .word) = .ofName (lineOf ws) := by
  have hs : IsStretch (ws.map .word) := .words h
  rw [meaning_last hs, meaningOfStretch_words]
  exact ⟨.last hs, rfl⟩

theorem isRow_nil : IsRow [] ∧ meaning [] = .last .empty := by
  have hnone : ∀ w ∈ ([] : List String), w ≠ "" := fun _ hw => nomatch hw
  exact isRow_words hnone

/-! ### connectives of a row -/

/-- the connectives outside all groups; so many groups are open at the start -/
def outerConnectives : Nat → List Symbol → List Connective
  | _, [] => []
  | 0, .connective c :: xs => c :: outerConnectives 0 xs
  | depth, .opening _ :: xs => outerConnectives (depth + 1) xs
  | depth, .closing _ :: xs => outerConnectives (depth - 1) xs
  | depth, _ :: xs => outerConnectives depth xs

theorem outerConnectives_opening (depth : Nat) (b : Bracket) (xs : List Symbol) :
    outerConnectives depth (.opening b :: xs) = outerConnectives (depth + 1) xs := by
  cases depth <;> rfl

theorem outerConnectives_closing (depth : Nat) (b : Bracket) (xs : List Symbol) :
    outerConnectives (depth + 1) (.closing b :: xs) = outerConnectives depth xs := rfl

theorem outerConnectives_group (depth : Nat) (b : Bracket) {xs : List Symbol}
    (h : ∀ ys, outerConnectives (depth + 1) (xs ++ ys) = outerConnectives (depth + 1) ys)
    (ys : List Symbol) :
    outerConnectives depth (.opening b :: (xs ++ .closing b :: ys))
      = outerConnectives depth ys := by
  rw [outerConnectives_opening, h, outerConnectives_closing]

theorem nests_outerConnectives : Nests fun xs => ∀ depth ys,
    outerConnectives (depth + 1) (xs ++ ys) = outerConnectives (depth + 1) ys where
  nil _ _ := rfl
  word _ _ _ _ := rfl
  connective _ _ _ := rfl
  append hx hy depth ys := by rw [List.append_assoc, hx, hy]
  group b xs hx depth ys := by
    rw [List.cons_append, List.append_assoc]
    exact outerConnectives_group (depth + 1) b (hx (depth + 1)) ys

theorem outerConnectives_words (ws : List String) (ys : List Symbol) :
    outerConnectives 0 (ws.map .word ++ ys) = outerConnectives 0 ys := by
  induction ws with
  | nil => rfl
  | cons w ws ih => exact ih

theorem IsStretch.outerConnectives_append {xs : List Symbol} (h : IsStretch xs)
    (ys : List Symbol) : outerConnectives 0 (xs ++ ys) = outerConnectives 0 ys := by
  match h with
  | .words _ => exact outerConnectives_words _ _
  | @IsStretch.group b before inside ws hbefore hinside _ =>
    have hgroup := outerConnectives_group 0 b (nests_outerConnectives.row hinside 0)
      (ws.map .word ++ ys)
    rw [outerConnectives_words] at hgroup
    rw [List.append_assoc, List.cons_append, List.append_assoc, List.cons_append,
      hbefore.outerConnectives_append]
    exact hgroup

theorem IsRow.connectives_meaning {xs : List Symbol} (h : IsRow xs) :
    (meaning xs).nodes.filterMap (·.2) = outerConnectives 0 xs := by
  match h with
  | .last hs =>
    have hnone := hs.outerConnectives_append []
    rw [List.append_nil] at hnone
    rw [meaning_last hs, hnone]
    rfl
  | .join c hs hnext =>
    rw [meaning_join hs, hs.outerConnectives_append, outerConnectives, ← hnext.connectives_meaning]
    rfl

theorem Formula.length_eq_connectives (f : Formula) :
    f.length = (f.nodes.filterMap (·.2)).length + 1 := by
  cases f with
  | last a => rfl
  | join a c next =>
    show next.nodes.length + 1 = (next.nodes.filterMap (·.2)).length + 1 + 1
    rw [← next.length_eq_connectives]
    rfl

end LicenseFormula
