import HouseLedger.Text.Lines

/-!
# Lines and carriage returns

Reading a file turns every carriage return into a break, and the format of ledgers does
not. This module says where that matters.

* `Text.IsCut` says of lines that a text is cut into them, and each text is cut into its
  pieces (`Text.isCut_iff`).
* `Text.HasLoneReturn` holds of a text with a carriage return that no line feed follows.
* `Text.unifyBreaks` leaves the lines of a text as they are exactly if it does not hold
  (`Text.splitLines_unifyBreaks_eq_iff`).
* Each lone carriage return makes one piece more (`Text.length_pieces_unified`).
-/

namespace HouseLedger

namespace Text

/-! ## Pieces -/

/-- The pieces of a text between its breaks, the last one being empty if the text ends in
a break. -/
def pieces (line text : List Char) : List (List Char) :=
  (cutAtBreaks line text).1 :: (cutAtBreaks line text).2

theorem pieces_nil (line : List Char) : pieces line [] = [line.reverse] := rfl

theorem pieces_feed (line rest : List Char) :
    pieces line ('\n' :: rest) = line.reverse :: pieces [] rest := rfl

/-- A carriage return before a line feed is dropped. -/
theorem pieces_return (line : List Char) {rest : List Char} (h : rest.head? = some '\n') :
    pieces line ('\r' :: rest) = pieces line rest := by
  obtain ⟨rest, rfl⟩ := List.head?_eq_some_iff.mp h
  rfl

/-- A character that is no part of a break belongs to its line. -/
theorem pieces_cons (line : List Char) {c : Char} {rest : List Char} (hfeed : c ≠ '\n')
    (hreturn : ¬ (c = '\r' ∧ rest.head? = some '\n')) :
    pieces line (c :: rest) = pieces (c :: line) rest := by
  unfold pieces
  rw [cutAtBreaks]
  · exact fun h => hfeed h
  · rintro rest' rfl rfl
    exact hreturn ⟨rfl, rfl⟩

/-- The three things that the next character can be. -/
theorem char_cases (c : Char) (rest : List Char) :
    c = '\n' ∨ (c = '\r' ∧ rest.head? = some '\n') ∨
      c ≠ '\n' ∧ ¬ (c = '\r' ∧ rest.head? = some '\n') := by
  by_cases hfeed : c = '\n'
  · exact .inl hfeed
  · by_cases hreturn : c = '\r' ∧ rest.head? = some '\n'
    · exact .inr (.inl hreturn)
    · exact .inr (.inr ⟨hfeed, hreturn⟩)

theorem head?_append_feed (text rest : List Char) :
    (text ++ '\n' :: rest).head? = (text ++ ['\n']).head? := by
  cases text with
  | nil => rfl
  | cons c text => rfl

/-- What stands before a line feed is cut no matter what comes after it. -/
theorem exists_pieces_append (line text : List Char) :
    ∃ first more, ∀ rest,
      pieces line (text ++ '\n' :: rest) = first :: (more ++ pieces [] rest) := by
  induction text generalizing line with
  | nil => exact ⟨line.reverse, [], fun rest => rfl⟩
  | cons c text ih =>
    rcases char_cases c (text ++ ['\n']) with rfl | ⟨rfl, hhead⟩ | ⟨hfeed, hreturn⟩
    · obtain ⟨first, more, h⟩ := ih []
      exact ⟨line.reverse, first :: more, fun rest => congrArg (line.reverse :: ·) (h rest)⟩
    · obtain ⟨first, more, h⟩ := ih line
      refine ⟨first, more, fun rest => ?_⟩
      rw [← head?_append_feed text rest] at hhead
      rw [List.cons_append, pieces_return line hhead, h]
    · obtain ⟨first, more, h⟩ := ih (c :: line)
      refine ⟨first, more, fun rest => ?_⟩
      rw [← head?_append_feed text rest] at hreturn
      rw [List.cons_append, pieces_cons line hfeed hreturn, h]

/-! ## Cutting -/

/-- The lines are what the text is cut into at its breaks. One carriage return right before a
line feed belongs to the break, and the line behind the last break may be empty. -/
inductive IsCut : List Char → List (List Char) → Prop
  | last {line : List Char} : '\n' ∉ line → IsCut line [line]
  | feed {line rest : List Char} {more : List (List Char)} :
      '\n' ∉ line → line.getLast? ≠ some '\r' → IsCut rest more →
      IsCut (line ++ '\n' :: rest) (line :: more)
  | return_feed {line rest : List Char} {more : List (List Char)} :
      '\n' ∉ line → IsCut rest more → IsCut (line ++ '\r' :: '\n' :: rest) (line :: more)

/-- Text without a line feed goes to the current line, unless it ends in half a break. -/
theorem pieces_append {text rest : List Char} (h : '\n' ∉ text)
    (hbreak : text.getLast? = some '\r' → rest.head? ≠ some '\n') (line : List Char) :
    pieces line (text ++ rest) = pieces (text.reverse ++ line) rest := by
  induction text generalizing line with
  | nil => rfl
  | cons c text ih =>
    obtain ⟨hc, htext⟩ := not_or.mp (mt List.mem_cons.mpr h)
    have hnext : ¬ (c = '\r' ∧ (text ++ rest).head? = some '\n') := by
      rintro ⟨rfl, hhead⟩
      cases text with
      | nil => exact hbreak rfl hhead
      | cons d text => exact htext (List.mem_of_mem_head? hhead)
    have hbreak' : text.getLast? = some '\r' → rest.head? ≠ some '\n' := fun hlast =>
      hbreak (by rw [List.getLast?_cons, hlast, Option.getD_some])
    rw [List.cons_append, pieces_cons line (Ne.symm hc) hnext, ih htext hbreak',
      List.reverse_cons, List.append_assoc, List.singleton_append]

theorem IsCut.pieces_eq {text : List Char} {lines : List (List Char)} (h : IsCut text lines) :
    pieces [] text = lines := by
  induction h with
  | @last line hline =>
    have hpieces := @pieces_append line [] hline (fun _ hhead => nomatch hhead) []
    rwa [List.append_nil, List.append_nil, pieces_nil, List.reverse_reverse] at hpieces
  | @feed line rest more hline hlast _ ih =>
    rw [pieces_append hline (fun hreturn => absurd hreturn hlast), pieces_feed, List.append_nil,
      List.reverse_reverse, ih]
  | @return_feed line rest more hline _ ih =>
    rw [pieces_append hline (fun _ => by simp), pieces_return _ rfl, pieces_feed,
      List.append_nil, List.reverse_reverse, ih]

theorem IsCut.feed_notMem {text : List Char} {lines : List (List Char)} (h : IsCut text lines) :
    ∀ line ∈ lines, '\n' ∉ line := by
  induction h with
  | last hline => exact List.forall_mem_singleton.mpr hline
  | feed hline _ _ ih => exact List.forall_mem_cons.mpr ⟨hline, ih⟩
  | return_feed hline _ ih => exact List.forall_mem_cons.mpr ⟨hline, ih⟩

/-- The text of lines that each end in a carriage return and a line feed, but for the last. -/
def withBreaks : List (List Char) → List Char
  | [] => []
  | [line] => line
  | line :: more => line ++ '\r' :: '\n' :: withBreaks more

/-- Lines without line feeds are those of a text. A carriage return at the end of a line stays
with it, since the break has one of its own. -/
theorem isCut_withBreaks {first : List Char} {more : List (List Char)}
    (h : ∀ line ∈ first :: more, '\n' ∉ line) : IsCut (withBreaks (first :: more)) (first :: more) := by
  induction more generalizing first with
  | nil => exact .last (h first List.mem_cons_self)
  | cons next more ih =>
    obtain ⟨hfirst, hmore⟩ := List.forall_mem_cons.mp h
    exact .return_feed hfirst (ih hmore)

/-- Every text has a first line. -/
theorem IsCut.exists_cons {text : List Char} {lines : List (List Char)} (h : IsCut text lines) :
    ∃ first more, lines = first :: more := by
  cases h with
  | last _ => exact ⟨_, _, rfl⟩
  | feed _ _ _ => exact ⟨_, _, rfl⟩
  | return_feed _ _ => exact ⟨_, _, rfl⟩

/-- Every text can be cut. -/
theorem exists_isCut (text : List Char) : ∃ lines, IsCut text lines := by
  induction hlength : text.length using Nat.strongRecOn generalizing text with
  | ind n ih =>
    by_cases hfeed : '\n' ∈ text
    · obtain ⟨line, rest, rfl, hline⟩ := List.eq_append_cons_of_mem hfeed
      obtain ⟨more, hmore⟩ := ih rest.length (by simp [← hlength]; omega) rest rfl
      by_cases hlast : line.getLast? = some '\r'
      · obtain ⟨before, rfl⟩ := List.getLast?_eq_some_iff.mp hlast
        refine ⟨before :: more, ?_⟩
        rw [List.append_assoc, List.singleton_append]
        exact .return_feed (fun h => hline (List.mem_append_left _ h)) hmore
      · exact ⟨line :: more, .feed hline hlast hmore⟩
    · exact ⟨[text], .last hfeed⟩

theorem isCut_iff {text : List Char} {lines : List (List Char)} :
    IsCut text lines ↔ pieces [] text = lines := by
  constructor
  · exact IsCut.pieces_eq
  · rintro rfl
    obtain ⟨lines, hlines⟩ := exists_isCut text
    rwa [hlines.pieces_eq]

/-! ## Pieces and lines -/

theorem splitLines_eq {text first : List Char} {more : List (List Char)}
    (h : pieces [] text = first :: more) :
    splitLines text = (first, if more.getLast? = some [] then more.dropLast else more) := by
  unfold pieces at h
  cases h
  rfl

/-- The lines of a text are its pieces; only an empty one can be missing among them. -/
theorem mem_splitLines_iff {text line : List Char} (hline : line ≠ []) :
    line ∈ (splitLines text).1 :: (splitLines text).2 ↔ line ∈ pieces [] text := by
  rw [pieces, splitLines_eq rfl]
  dsimp only
  by_cases hlast : (cutAtBreaks [] text).2.getLast? = some []
  · obtain ⟨more, hmore⟩ := List.getLast?_eq_some_iff.mp hlast
    rw [if_pos hlast, hmore, List.dropLast_concat]
    simp [hline]
  · rw [if_neg hlast]

theorem mem_of_mem_pieces {line text piece : List Char} (h : piece ∈ pieces line text) {c : Char}
    (hc : c ∈ piece) : c ∈ line ∨ c ∈ text := by
  induction text generalizing line with
  | nil =>
    rw [pieces_nil, List.mem_singleton] at h
    subst h
    exact .inl (List.mem_reverse.mp hc)
  | cons next text ih =>
    rcases char_cases next text with rfl | ⟨rfl, hhead⟩ | ⟨hfeed, hreturn⟩
    · rw [pieces_feed, List.mem_cons] at h
      rcases h with rfl | h
      · exact .inl (List.mem_reverse.mp hc)
      · exact .inr (List.mem_cons_of_mem _ ((ih h).resolve_left List.not_mem_nil))
    · rw [pieces_return line hhead] at h
      exact (ih h).imp_right (List.mem_cons_of_mem _)
    · rw [pieces_cons line hfeed hreturn] at h
      rcases ih h with hmem | hmem
      · rcases List.mem_cons.mp hmem with rfl | hmem
        · exact .inr List.mem_cons_self
        · exact .inl hmem
      · exact .inr (List.mem_cons_of_mem _ hmem)

/-- What was read of a line ends up in one of the pieces. -/
theorem exists_mem_pieces {c : Char} {line : List Char} (h : c ∈ line) (text : List Char) :
    ∃ piece ∈ pieces line text, c ∈ piece := by
  induction text generalizing line with
  | nil => exact ⟨line.reverse, List.mem_cons_self, List.mem_reverse.mpr h⟩
  | cons next text ih =>
    rcases char_cases next text with rfl | ⟨rfl, hhead⟩ | ⟨hfeed, hreturn⟩
    · exact ⟨line.reverse, List.mem_cons_self, List.mem_reverse.mpr h⟩
    · rw [pieces_return line hhead]
      exact ih h
    · rw [pieces_cons line hfeed hreturn]
      exact ih (List.mem_cons_of_mem next h)

/-! ## Lone carriage returns -/

/-- Whether the text has a carriage return that no line feed follows. -/
def HasLoneReturn (text : List Char) : Prop :=
  ∃ before after, text = before ++ '\r' :: after ∧ after.head? ≠ some '\n'

/-- The number of carriage returns that no line feed follows. -/
def loneReturns : List Char → Nat
  | [] => 0
  | c :: rest => (if c = '\r' ∧ rest.head? ≠ some '\n' then 1 else 0) + loneReturns rest

theorem not_hasLoneReturn_nil : ¬ HasLoneReturn [] := by
  rintro ⟨before, after, h, -⟩
  cases before <;> cases h

theorem hasLoneReturn_cons (c : Char) (rest : List Char) :
    HasLoneReturn (c :: rest) ↔ c = '\r' ∧ rest.head? ≠ some '\n' ∨ HasLoneReturn rest := by
  constructor
  · rintro ⟨before, after, h, hafter⟩
    cases before with
    | nil =>
      cases h
      exact .inl ⟨rfl, hafter⟩
    | cons _ before =>
      cases h
      exact .inr ⟨before, after, rfl, hafter⟩
  · rintro (⟨rfl, hrest⟩ | ⟨before, after, rfl, hafter⟩)
    · exact ⟨[], rest, rfl, hrest⟩
    · exact ⟨c :: before, after, rfl, hafter⟩

theorem loneReturns_eq_zero_iff (text : List Char) :
    loneReturns text = 0 ↔ ¬ HasLoneReturn text := by
  induction text with
  | nil => simpa [loneReturns] using not_hasLoneReturn_nil
  | cons c rest ih =>
    rw [loneReturns, hasLoneReturn_cons, Nat.add_eq_zero_iff, ih, not_or]
    simp

theorem hasLoneReturn_append_feed (text rest : List Char) :
    HasLoneReturn (text ++ '\n' :: rest) ↔
      HasLoneReturn (text ++ ['\n']) ∨ HasLoneReturn rest := by
  induction text with
  | nil => simp [hasLoneReturn_cons, not_hasLoneReturn_nil]
  | cons c text ih =>
    rw [List.cons_append, List.cons_append, hasLoneReturn_cons, hasLoneReturn_cons, ih,
      head?_append_feed, or_assoc]

/-- A lone carriage return stands in one of the lines. -/
theorem exists_return_mem_pieces {text : List Char} (h : HasLoneReturn text) (line : List Char) :
    ∃ piece ∈ pieces line text, '\r' ∈ piece := by
  induction text generalizing line with
  | nil => exact absurd h not_hasLoneReturn_nil
  | cons c text ih =>
    rw [hasLoneReturn_cons] at h
    rcases char_cases c text with rfl | ⟨rfl, hhead⟩ | ⟨hfeed, hreturn⟩
    · have hrest := h.resolve_left fun hc => absurd hc.1 (by decide)
      obtain ⟨piece, hpiece, hmem⟩ := ih hrest []
      exact ⟨piece, List.mem_cons_of_mem _ hpiece, hmem⟩
    · rw [pieces_return line hhead]
      exact ih (h.resolve_left fun hc => hc.2 hhead) line
    · rw [pieces_cons line hfeed hreturn]
      rcases h with ⟨rfl, -⟩ | hrest
      · exact exists_mem_pieces List.mem_cons_self text
      · exact ih hrest (c :: line)

/-! ## One break for all -/

/-- The text with a line feed for every break, from its front on. -/
def unified : List Char → List Char
  | [] => []
  | c :: rest =>
    if c = '\r' then if rest.head? = some '\n' then unified rest else '\n' :: unified rest
    else c :: unified rest

theorem unifyBreaksOnto_eq (done text : List Char) :
    unifyBreaksOnto done text = done.reverse ++ unified text := by
  induction done, text using unifyBreaksOnto.induct with
  | case1 done => simp [unifyBreaksOnto, unified]
  | case2 done text ih =>
    rw [unifyBreaksOnto, ih]
    simp [unified]
  | case3 done text hreturn ih =>
    have hhead : text.head? ≠ some '\n' := by
      intro h
      obtain ⟨rest, rfl⟩ := List.head?_eq_some_iff.mp h
      exact hreturn rest rfl
    rw [unifyBreaksOnto, ih]
    · simp [unified, hhead]
    · exact hreturn
  | case4 done c text hfeed hreturn ih =>
    rw [unifyBreaksOnto, ih]
    · simp [unified, show c ≠ '\r' from hreturn]
    · exact hfeed
    · exact hreturn

theorem unifyBreaks_eq (text : List Char) : unifyBreaks text = unified text :=
  unifyBreaksOnto_eq [] text

theorem return_notMem_unified (text : List Char) : '\r' ∉ unified text := by
  induction text with
  | nil => exact List.not_mem_nil
  | cons c rest ih =>
    rw [unified]
    by_cases hreturn : c = '\r'
    · by_cases hhead : rest.head? = some '\n'
      · rwa [if_pos hreturn, if_pos hhead]
      · rw [if_pos hreturn, if_neg hhead, List.mem_cons, not_or]
        exact ⟨by decide, ih⟩
    · rw [if_neg hreturn, List.mem_cons, not_or]
      exact ⟨Ne.symm hreturn, ih⟩

theorem unified_feed (rest : List Char) : unified ('\n' :: rest) = '\n' :: unified rest :=
  if_neg (by decide)

theorem unified_return {rest : List Char} (h : rest.head? = some '\n') :
    unified ('\r' :: rest) = unified rest := by
  rw [unified, if_pos rfl, if_pos h]

theorem unified_lone_return {rest : List Char} (h : rest.head? ≠ some '\n') :
    unified ('\r' :: rest) = '\n' :: unified rest := by
  rw [unified, if_pos rfl, if_neg h]

theorem unified_cons {c : Char} (h : c ≠ '\r') (rest : List Char) :
    unified (c :: rest) = c :: unified rest :=
  if_neg h

/-- What stands before a line feed is unified no matter what comes after it. -/
theorem exists_unified_append (text : List Char) :
    ∃ before, ∀ rest, unified (text ++ '\n' :: rest) = before ++ '\n' :: unified rest := by
  induction text with
  | nil => exact ⟨[], unified_feed⟩
  | cons c text ih =>
    obtain ⟨before, h⟩ := ih
    by_cases hreturn : c = '\r'
    · subst hreturn
      by_cases hhead : (text ++ ['\n']).head? = some '\n'
      · refine ⟨before, fun rest => ?_⟩
        rw [← head?_append_feed text rest] at hhead
        rw [List.cons_append, unified_return hhead, h]
      · refine ⟨'\n' :: before, fun rest => ?_⟩
        rw [← head?_append_feed text rest] at hhead
        rw [List.cons_append, unified_lone_return hhead, h, List.cons_append]
    · refine ⟨c :: before, fun rest => ?_⟩
      rw [List.cons_append, unified_cons hreturn, h, List.cons_append]

/-- Each lone carriage return makes one piece more. -/
theorem length_pieces_unified (text : List Char) (line line' : List Char) :
    (pieces line' (unified text)).length = (pieces line text).length + loneReturns text := by
  induction text generalizing line line' with
  | nil => rfl
  | cons c rest ih =>
    rw [loneReturns]
    rcases char_cases c rest with rfl | ⟨rfl, hhead⟩ | ⟨hfeed, hreturn⟩
    · rw [unified_feed, pieces_feed, pieces_feed, List.length_cons, List.length_cons, ih [] [],
        if_neg (by simp)]
      omega
    · rw [unified_return hhead, pieces_return line hhead, ih line line', if_neg (by simp [hhead]),
        Nat.zero_add]
    · rw [pieces_cons line hfeed hreturn]
      by_cases hlone : c = '\r'
      · subst hlone
        -- It goes on with the line of the text, but ends that of the unified one.
        have hhead : rest.head? ≠ some '\n' := fun h => hreturn ⟨rfl, h⟩
        rw [unified_lone_return hhead, pieces_feed, List.length_cons, ih ('\r' :: line) [],
          if_pos ⟨rfl, hhead⟩]
        omega
      · rw [unified_cons hlone, pieces_cons line' hfeed fun h => hlone h.1,
          ih (c :: line) (c :: line'), if_neg fun h => hlone h.1, Nat.zero_add]

/-- A text without lone carriage returns keeps its pieces. -/
theorem pieces_unified {text : List Char} (h : ¬ HasLoneReturn text) (line : List Char) :
    pieces line (unified text) = pieces line text := by
  induction text generalizing line with
  | nil => rfl
  | cons c rest ih =>
    rw [hasLoneReturn_cons, not_or] at h
    rcases char_cases c rest with rfl | ⟨rfl, hhead⟩ | ⟨hfeed, hreturn⟩
    · rw [unified_feed, pieces_feed, pieces_feed, ih h.2]
    · rw [unified_return hhead, pieces_return line hhead, ih h.2]
    · have hlone : c ≠ '\r' := fun hc => h.1 ⟨hc, fun hhead => hreturn ⟨hc, hhead⟩⟩
      rw [unified_cons hlone, pieces_cons line hfeed fun hc => hlone hc.1,
        pieces_cons line hfeed hreturn, ih h.2]

/-- An empty piece behind the last break is no line. -/
theorem splitLines_of_pieces_empty {text first : List Char} {more : List (List Char)}
    (h : pieces [] text = first :: (more ++ [[]])) : splitLines text = (first, more) := by
  rw [splitLines_eq h, if_pos List.getLast?_concat, List.dropLast_concat]

theorem splitLines_of_pieces_line {text first line : List Char} {more : List (List Char)}
    (hline : line ≠ []) (h : pieces [] text = first :: (more ++ [line])) :
    splitLines text = (first, more ++ [line]) := by
  rw [splitLines_eq h, if_neg]
  rw [List.getLast?_concat, Option.some.injEq]
  exact hline

/-- A line that is added behind a line feed is one line more, with or without lone carriage
returns before it; but these make other lines before it. -/
theorem exists_splitLines_append (text : List Char) :
    ∃ first more first' more',
      splitLines (text ++ ['\n']) = (first, more) ∧
      more'.length = more.length + loneReturns (text ++ ['\n']) ∧
      ∀ c, c ≠ '\n' → c ≠ '\r' →
        splitLines (text ++ ['\n', c]) = (first, more ++ [[c]]) ∧
        splitLines (unifyBreaks (text ++ ['\n', c])) = (first', more' ++ [[c]]) := by
  obtain ⟨first, more, hpieces⟩ := exists_pieces_append [] text
  obtain ⟨before, hunified⟩ := exists_unified_append text
  obtain ⟨first', more', hpieces'⟩ := exists_pieces_append [] before
  refine ⟨first, more, first', more', splitLines_of_pieces_empty (hpieces []), ?_, ?_⟩
  · have hlength := length_pieces_unified (text ++ ['\n']) [] []
    rw [hunified, unified, hpieces, hpieces'] at hlength
    simp only [List.length_append, List.length_cons] at hlength
    omega
  · intro c hfeed hreturn
    have hline : pieces [] [c] = [[c]] := pieces_cons [] hfeed fun h => hreturn h.1
    constructor
    · exact splitLines_of_pieces_line (List.cons_ne_nil _ _) (by rw [hpieces, hline])
    · refine splitLines_of_pieces_line (List.cons_ne_nil _ _) ?_
      rw [unifyBreaks_eq, hunified, unified_cons hreturn, unified, hpieces', hline]

/-- The lines of a text are unchanged exactly if it has no lone carriage returns. -/
theorem splitLines_unifyBreaks_eq_iff (text : List Char) :
    splitLines (unifyBreaks text) = splitLines text ↔ ¬ HasLoneReturn text := by
  rw [unifyBreaks_eq]
  constructor
  · intro heq hlone
    -- A line with a carriage return in it would be one of the text without any.
    obtain ⟨piece, hpiece, hmem⟩ := exists_return_mem_pieces hlone []
    have hne : piece ≠ [] := List.ne_nil_of_mem hmem
    rw [← mem_splitLines_iff hne, ← heq, mem_splitLines_iff hne] at hpiece
    rcases mem_of_mem_pieces hpiece hmem with h | h
    · exact List.not_mem_nil h
    · exact return_notMem_unified text h
  · intro hlone
    rw [splitLines_eq (pieces_unified hlone [])]
    rfl

end Text

end HouseLedger
