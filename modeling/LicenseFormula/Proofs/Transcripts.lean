import LicenseFormula.Proofs.Faults

/-!
# What is told of a reading

The events of a reading follow its lexemes one by one.  A stray byte is told before its token, and
what a bracket does is told behind its token: how deep the group lies that it opens or closes, and
where the bracket ends.  The first bracket that closes nothing is told last.  Where there is none,
the groups that are left open are told at the end, if there are any.  The depth is that of the
brackets themselves: those that opened a group, less those that closed one.

* `Matches b es`            the bracket `b` closes a group that the brackets `es` have opened;
* `depthOf ps`              the number of groups that are open behind the lexemes `ps`;
* `Transcript before ps es` `es` is what is told of the lexemes `ps` that stand behind `before`;
* `matches_iff_of_openAfter`, `depthOf_of_openAfter`
                            both in terms of the groups that are open;
* `Reading.transcript_ofLexemes` the events of a reading are such a transcript;
* `Reading.toldOf s`         what is told of a text to who sees all;
* `Reading.events_transcript` all of this for texts, and how a reading that fails is told.
-/

namespace LicenseFormula

/-! ### what is told -/

/-- the bracket closes a group: one of its style opens it, and what is between is balanced -/
def Matches (b : Bracket) (es : List Edge) : Prop :=
  ∃ xs ys, es = xs ++ .opening b :: ys ∧ Balanced ys

/-- the bracket that a lexeme is, if any -/
def Placed.edge? (p : Placed) : Option Edge :=
  match p.lexeme with
  | .opening b => some (.opening b)
  | .closing b => some (.closing b)
  | _ => none

def bracketsOf (ps : List Placed) : List Edge := ps.filterMap Placed.edge?

/-- the number of groups open behind lexemes of which every bracket that closes has matched -/
def depthOf (ps : List Placed) : Nat :=
  (bracketsOf ps).countP (fun e => !e.isClosing) - (bracketsOf ps).countP Edge.isClosing

/-- what is told of a lexeme behind others, unless it closes nothing -/
def Placed.block (before : List Placed) (p : Placed) : List Event :=
  match p.lexeme with
  | .run _ => [.token p.lexeme.token]
  | .stray byte => [.stray byte p.start, .token p.lexeme.token]
  | .opening b => [.token p.lexeme.token, .opened b (depthOf before) p.after.offset]
  | .closing b => [.token p.lexeme.token, .closed b (depthOf (before ++ [p]))]

/-- what is told of lexemes behind others, up to the first that closes nothing -/
inductive Transcript : List Placed → List Placed → List Event → Prop where
  | finish {before : List Placed} : depthOf before = 0 → Transcript before [] []
  | leftOpen {before : List Placed} : 0 < depthOf before →
    Transcript before [] [.failed (.leftOpen (depthOf before))]
  | unmatched {before ps : List Placed} {p : Placed} {b : Bracket} :
    p.lexeme = .closing b → ¬ Matches b (bracketsOf before) →
      Transcript before (p :: ps) [.token p.lexeme.token, .failed (.unmatched b p.after.offset)]
  | block {before ps : List Placed} {p : Placed} {es : List Event} :
    (∀ b, p.lexeme = .closing b → Matches b (bracketsOf before)) →
      Transcript (before ++ [p]) ps es → Transcript before (p :: ps) (p.block before ++ es)

/-! ### brackets that match -/

theorem matches_or_closes_of_openAfter {ks js : List Bracket} {es : List Edge} {b : Bracket}
    (h : openAfter ks es = some (b :: js)) :
    Matches b es ∨ ∃ is, ks = is ++ b :: js ∧ Closes is es := by
  fun_induction openAfter ks es with
  | case1 ks =>
    obtain rfl := Option.some.inj h
    exact .inr ⟨[], rfl, .nil .nil⟩
  | case2 ks c es ih =>
    rcases ih h with ⟨xs, ys, rfl, hys⟩ | ⟨is, his, hes⟩
    · exact .inl ⟨.opening c :: xs, ys, rfl, hys⟩
    · -- the group opened here is the one looked for, or `es` closes it
      cases hes with
      | nil hes =>
        obtain ⟨rfl, rfl⟩ := List.cons.inj his
        exact .inl ⟨[], _, rfl, hes⟩
      | cons k hinside hrest =>
        obtain ⟨rfl, rfl⟩ := List.cons.inj his
        exact .inr ⟨_, rfl, .group c hinside hrest⟩
  | case3 c es => cases h
  | case4 ks c es ih =>
    rcases ih h with ⟨xs, ys, rfl, hys⟩ | ⟨is, rfl, hes⟩
    · exact .inl ⟨.closing c :: xs, ys, rfl, hys⟩
    · exact .inr ⟨c :: is, rfl, .cons c .nil hes⟩
  | case5 k ks c es hk => cases h

theorem matches_iff_of_openAfter {ks : List Bracket} {es : List Edge} {b : Bracket}
    (h : openAfter [] es = some ks) : Matches b es ↔ ks.head? = some b := by
  constructor
  · rintro ⟨xs, ys, rfl, hys⟩
    rw [openAfter_append] at h
    cases hxs : openAfter [] xs with
    | none => rw [hxs] at h; cases h
    | some js =>
      rw [hxs] at h
      obtain rfl := Option.some.inj ((hys.openAfter (b :: js)).symm.trans h)
      rfl
  · intro hb
    obtain ⟨js, rfl⟩ := List.head?_eq_some_iff.mp hb
    rcases matches_or_closes_of_openAfter h with hm | ⟨is, his, _⟩
    · exact hm
    · simp at his

theorem depthOf_of_openAfter {ks : List Bracket} {ps : List Placed}
    (h : openAfter [] (bracketsOf ps) = some ks) : depthOf ps = ks.length := by
  have hlen := length_of_openAfter h
  rw [List.length_nil] at hlen
  rw [depthOf]
  omega

/-! ### a reading step by step -/

theorem bracketsOf_append (ps qs : List Placed) :
    bracketsOf (ps ++ qs) = bracketsOf ps ++ bracketsOf qs :=
  List.filterMap_append

/-- a run is a word or a connective, which is taken in whatever has been read -/
theorem Placed.exists_symbol?_run (start : Nat) (ws : List UInt8) (after : Cursor) :
    ∃ x, Placed.symbol? ⟨start, .run ws, after⟩ = some x ∧ ∀ s : Assembly,
      ∃ t, s.step x = .ok t ∧ t.brackets = s.brackets ∧ x.events s t after.offset = [] := by
  show ∃ x, Token.symbol? ⟨Token.Kind.ofWord _, _⟩ = some x ∧ _
  unfold Token.Kind.ofWord
  split
  · exact ⟨.connective _, rfl, fun s => ⟨_, rfl, rfl, rfl⟩⟩
  · exact ⟨.word _, rfl, fun s => ⟨_, rfl, rfl, rfl⟩⟩

theorem Assembly.depth_eq_depthOf {s : Assembly} {ps : List Placed}
    (h : openAfter [] (bracketsOf ps) = some s.brackets) : s.depth = depthOf ps := by
  rw [depthOf_of_openAfter h, s.length_brackets]

theorem Assembly.step_closing {s : Assembly} {b : Bracket} (h : s.brackets.head? = some b) :
    ∃ t, s.step (.closing b) = .ok t ∧ s.brackets = b :: t.brackets := by
  obtain ⟨row, around⟩ := s
  cases around with
  | nil => cases h
  | cons frame around =>
    obtain ⟨outer, k⟩ := frame
    obtain rfl : k = b := Option.some.inj h
    exact ⟨_, step_closing_eq_ok_iff.mpr ⟨outer, around, rfl, rfl⟩, rfl⟩

namespace Reading

variable {s : Assembly} {before : List Placed}

theorem transcript_nil (finish : Cursor) (h : openAfter [] (bracketsOf before) = some s.brackets) :
    Transcript before [] (ofLexemes finish s []).events := by
  have hdepth := s.depth_eq_depthOf h
  rw [ofLexemes]
  obtain ⟨row, around⟩ := s
  cases around with
  | nil => exact .finish hdepth.symm
  | cons frame around =>
    show Transcript before [] [.failed (.leftOpen (Assembly.depth ⟨row, frame :: around⟩))]
    rw [hdepth]
    exact .leftOpen (hdepth ▸ Nat.succ_pos _)

/-- a bracket that closes a group is told with the depth behind it, any other ends what is told -/
theorem transcript_closing (finish : Cursor) (start : Nat) (b : Bracket) (after : Cursor)
    {ps : List Placed} (h : openAfter [] (bracketsOf before) = some s.brackets)
    (ih : ∀ t : Assembly,
      openAfter [] (bracketsOf (before ++ [⟨start, .closing b, after⟩])) = some t.brackets →
        Transcript (before ++ [⟨start, .closing b, after⟩]) ps (ofLexemes finish t ps).events) :
    Transcript before (⟨start, .closing b, after⟩ :: ps)
      (ofLexemes finish s (⟨start, .closing b, after⟩ :: ps)).events := by
  have hx : (Placed.mk start (.closing b) after).symbol? = some (.closing b) := rfl
  rw [ofLexemes, hx]
  by_cases hb : s.brackets.head? = some b
  · obtain ⟨t, ht, hbrackets⟩ := Assembly.step_closing hb
    have hopen : openAfter [] (bracketsOf (before ++ [⟨start, .closing b, after⟩]))
        = some t.brackets := by
      rw [bracketsOf_append, openAfter_append, h, hbrackets]
      exact openAfter_closing_self b t.brackets []
    have hmatches : ∀ c, Lexeme.closing b = .closing c → Matches c (bracketsOf before) := by
      intro c hc
      obtain rfl := Lexeme.closing.inj hc
      exact (matches_iff_of_openAfter h).mpr hb
    have hblock := Transcript.block hmatches (ih t hopen)
    rw [Placed.block, ← t.depth_eq_depthOf hopen] at hblock
    simp only [ht]
    exact hblock
  · simp only [Assembly.step_closing_eq_error hb]
    exact .unmatched rfl (mt (matches_iff_of_openAfter h).mp hb)

theorem transcript_ofLexemes (finish : Cursor) (ps : List Placed)
    (h : openAfter [] (bracketsOf before) = some s.brackets) :
    Transcript before ps (ofLexemes finish s ps).events := by
  induction ps generalizing s before with
  | nil => exact transcript_nil finish h
  | cons p ps ih =>
    obtain ⟨start, l, after⟩ := p
    cases l with
    | run ws =>
      obtain ⟨x, hx, hstep⟩ := Placed.exists_symbol?_run start ws after
      obtain ⟨t, ht, hbrackets, hevents⟩ := hstep s
      have hopen : openAfter [] (bracketsOf (before ++ [⟨start, .run ws, after⟩]))
          = some t.brackets := by
        rw [bracketsOf_append, openAfter_append, h, hbrackets]
        rfl
      rw [ofLexemes, hx]
      simp only [ht, hevents, List.append_nil]
      exact .block (fun b hb => by cases hb) (ih hopen)
    | stray byte =>
      have hopen : openAfter [] (bracketsOf (before ++ [⟨start, .stray byte, after⟩]))
          = some s.brackets := by
        rw [bracketsOf_append, openAfter_append, h]
        rfl
      exact .block (fun b hb => by cases hb) (ih hopen)
    | opening b =>
      have hopen : openAfter [] (bracketsOf (before ++ [⟨start, .opening b, after⟩]))
          = some (Assembly.brackets ⟨.start, (s.row, b) :: s.around⟩) := by
        rw [bracketsOf_append, openAfter_append, h]
        rfl
      have hmatches : ∀ c, Lexeme.opening b = .closing c → Matches c (bracketsOf before) := by
        intro c hc
        cases hc
      have hblock := Transcript.block hmatches (ih hopen)
      rw [Placed.block, ← s.depth_eq_depthOf h] at hblock
      exact hblock
    | closing b => exact transcript_closing finish start b after h fun t ht => ih ht

/-! ### the end of what is told -/

theorem exists_events_eq (finish : Cursor) (s : Assembly) (ps : List Placed) :
    ∃ es, (∀ e ∈ es, ∀ fault, e ≠ .failed fault) ∧ (ofLexemes finish s ps).events
      = es ++ match (ofLexemes finish s ps).outcome with
        | .ok _ => []
        | .error fault => [.failed fault] := by
  induction ps generalizing s with
  | nil =>
    have hnone : ∀ e ∈ ([] : List Event), ∀ fault, e ≠ .failed fault := fun _ he => nomatch he
    rw [ofLexemes]
    split
    · exact ⟨[], hnone, rfl⟩
    · exact ⟨[], hnone, rfl⟩
  | cons p ps ih =>
    have hlexeme : ∀ e ∈ p.events, ∀ fault, e ≠ .failed fault := by
      obtain ⟨start, l, after⟩ := p
      cases l <;> simp [Placed.events]
    rw [ofLexemes]
    split
    · obtain ⟨es, hes, heq⟩ := ih s
      refine ⟨p.events ++ es, List.forall_mem_append.mpr ⟨hlexeme, hes⟩, ?_⟩
      rw [outcome_behind, List.append_assoc, ← heq]
      rfl
    · next x hx =>
      split
      · next t ht =>
        obtain ⟨es, hes, heq⟩ := ih t
        have hsymbol : ∀ e ∈ x.events s t p.after.offset, ∀ fault, e ≠ .failed fault := by
          cases x <;> simp [Symbol.events]
        refine ⟨p.events ++ x.events s t p.after.offset ++ es, ?_, ?_⟩
        · exact List.forall_mem_append.mpr ⟨List.forall_mem_append.mpr ⟨hlexeme, hsymbol⟩, hes⟩
        · rw [outcome_behind, List.append_assoc _ es, ← heq]
          rfl
      · exact ⟨p.events, hlexeme, rfl⟩

end Reading

/-! ### messages -/

/-- the character that a text begins with -/
def Text.initial? (s : String) : Option Char := s.toList.head?

theorem Text.initial?_append {s : String} {c : Char} (h : initial? s = some c) (t : String) :
    initial? (s ++ t) = some c := by
  rw [initial?, String.toList_append, List.head?_append, ← initial?, h]
  rfl

theorem Fault.initial?_detail (fault : Fault) :
    ∃ c, Text.initial? fault.detail = some c ∧ (c = 'u' ∨ c.isDigit = true) := by
  cases fault with
  | unmatched b offset =>
    refine ⟨'u', ?_, .inl rfl⟩
    iterate 3 refine Text.initial?_append ?_ _
    decide
  | leftOpen depth =>
    have hlist : (toString depth).toList = Nat.toDigits 10 depth := String.toList_ofList
    cases hd : Nat.toDigits 10 depth with
    | nil => exact absurd hd Nat.toDigits_ne_nil
    | cons c cs =>
      have hc : c.isDigit = true :=
        Nat.isDigit_of_mem_toDigits (by decide) (by decide) (hd ▸ List.mem_cons_self)
      refine ⟨c, Text.initial?_append ?_ _, .inr hc⟩
      rw [Text.initial?, hlist, hd]
      rfl

namespace Event

theorem initial?_message {e : Event} (h : e.level = .debug) :
    (∃ fault, e = .failed fault) ∨ ∃ c ∈ ['i', 'o', 'c'], Text.initial? e.message = some c := by
  cases e with
  | token t => cases h
  | failed fault => exact .inl ⟨fault, rfl⟩
  | stray byte offset =>
    refine .inr ⟨'i', by decide, ?_⟩
    iterate 3 refine Text.initial?_append ?_ _
    decide
  | opened b depth offset =>
    refine .inr ⟨'o', by decide, ?_⟩
    iterate 6 refine Text.initial?_append ?_ _
    decide
  | closed b depth =>
    refine .inr ⟨'c', by decide, ?_⟩
    iterate 3 refine Text.initial?_append ?_ _
    decide

/-- no other event is told as a fault is told -/
theorem exists_of_message_eq_detail {e : Event} {fault : Fault}
    (h : (e.level, e.message) = (.debug, fault.detail)) : ∃ fault, e = .failed fault := by
  obtain ⟨hlevel, hmessage⟩ := Prod.mk.inj h
  rcases initial?_message hlevel with he | ⟨c, hc, hinitial⟩
  · exact he
  · obtain ⟨d, hd, hdigit⟩ := fault.initial?_detail
    rw [hmessage, hd] at hinitial
    obtain rfl := Option.some.inj hinitial
    simp only [List.mem_cons, List.not_mem_nil, or_false] at hc
    rcases hc with rfl | rfl | rfl
    · exact absurd hdigit (by decide)
    · exact absurd hdigit (by decide)
    · exact absurd hdigit (by decide)

theorem report_trace (es : List Event) :
    report .trace es = es.map fun e => (e.level, e.message) := by
  have hall : es.filter (fun e => Verbosity.trace.shows e.level) = es :=
    List.filter_eq_self.mpr fun _ _ => rfl
  rw [report, hall]

end Event

/-! ### texts -/

namespace Reading

/-- what is told of reading the text to who sees all -/
def toldOf (s : String) : List (Level × String) :=
  Event.report .trace (ofCursor (.ofString s)).events

/-- What is told of a reading is the transcript of its lexemes, each of which is where it is said
to be, and nothing of it is hidden from who sees all.  A reading that fails tells its fault last,
and no fault is told anywhere else; so what is told last shows whether the text is a formula. -/
theorem events_transcript (s : String) :
    Transcript [] (Cursor.ofString s).lexemes (ofCursor (.ofString s)).events
      ∧ (∀ p ∈ (Cursor.ofString s).lexemes, ∃ as,
        Text.bytes s = as ++ (p.lexeme.bytes ++ p.after.rest) ∧ p.start = as.length
          ∧ p.after.offset = as.length + p.lexeme.bytes.length)
      ∧ toldOf s = (ofCursor (.ofString s)).events.map (fun e => (e.level, e.message))
      ∧ (∀ fault, Formula.parse s = .error fault →
        (toldOf s).getLast? = some (.debug, fault.detail))
      ∧ ((∃ fault, Formula.parse s = .error fault)
        ↔ ∃ fault : Fault, (toldOf s).getLast? = some (.debug, fault.detail))
      ∧ ∀ m ∈ (toldOf s).dropLast, ∀ fault : Fault, m ≠ (.debug, fault.detail) := by
  obtain ⟨es, hes, heq⟩ := exists_events_eq (Cursor.ofString s).toEnd .start
    (Cursor.ofString s).lexemes
  change (ofCursor (.ofString s)).events = es ++ match Formula.parse s with
    | .ok _ => []
    | .error fault => [.failed fault] at heq
  have htold : toldOf s = (ofCursor (.ofString s)).events.map (fun e => (e.level, e.message)) :=
    Event.report_trace _
  have hmessage : ∀ m ∈ es.map (fun e => (e.level, e.message)), ∀ fault : Fault,
      m ≠ (.debug, fault.detail) := by
    intro m hm fault hfault
    obtain ⟨e, he, rfl⟩ := List.mem_map.mp hm
    obtain ⟨fault', he'⟩ := Event.exists_of_message_eq_detail hfault
    exact hes e he fault' he'
  refine ⟨transcript_ofLexemes _ _ rfl, fun p hp => ?_, htold, ?_⟩
  · exact Cursor.exists_split_of_mem_lexemes [] (Text.bytes s) hp
  · rw [htold, heq]
    cases Formula.parse s with
    | ok f =>
      rw [List.append_nil]
      refine ⟨fun fault h => ?_, ⟨?_, ?_⟩, ?_⟩
      · cases h
      · rintro ⟨fault, h⟩
        cases h
      · rintro ⟨fault, h⟩
        exact absurd rfl (hmessage _ (List.mem_of_getLast? h) fault)
      · exact fun m hm => hmessage m (List.dropLast_subset _ hm)
    | error fault =>
      have hlast : ((es ++ [Event.failed fault]).map (fun e => (e.level, e.message))).getLast?
          = some (.debug, fault.detail) := by
        rw [List.map_append, List.map_singleton, List.getLast?_concat]
        rfl
      refine ⟨?_, ⟨fun _ => ⟨fault, hlast⟩, fun _ => ⟨fault, rfl⟩⟩, ?_⟩
      · intro fault' h
        obtain rfl := Except.error.inj h
        exact hlast
      · rw [List.map_append, List.map_singleton, List.dropLast_concat]
        exact hmessage

example : toldOf "(a,\x7d)" = [(.trace, "token ( \"(\""),
    (.debug, "open Paren group at depth 0 (offset 1)"), (.trace, "token IDENT \"a\""),
    (.debug, "illegal byte 0x2c at offset 2"), (.trace, "token ILLEGAL \",\""),
    (.trace, "token \x7d \"\x7d\""), (.debug, "unmatched Brace close at offset 4")] := by
  cbv

end Reading

end LicenseFormula
