import HouseLedger.Proofs.Ledger.Rearranging
import HouseLedger.Proofs.Text.Layout
import Mathlib.Algebra.BigOperators.Intervals

/-!
# Lines written anew

A ledger may be written in another way. This module says what becomes of its reading if some
lines are written in the place of each line behind the header, each of which is read as the line
is or is idle: the ledger is the same, and a fault is told of the line that stands where the
line stood (`Ledger.ofLines_flatMap`).

The layout of a text is of no account: `Ledger.ofString_laidOut` says so of empty lines and
comments put in behind the header, of a line feed at the end, and of carriage returns before the
line feeds.
-/

namespace HouseLedger

open Outcome Text

/-! ## Faults of other lines -/

/-- The fault as it is told of another line: `tell` gives the number and the text of the line in
the place of its own. -/
def Fault.retold (tell : Nat → String → Nat × String) : Fault → Fault
  | lineMalformed number line => lineMalformed (tell number line).1 (tell number line).2
  | onLine number line cause => onLine (tell number line).1 (tell number line).2 cause
  | fault => fault

/-- An overflow is told of no line, and so of no other one either. -/
theorem Fault.retold_atLine (tell : Nat → String → Nat × String) (number : Nat) (line : String)
    (cause : Fault) :
    (atLine number line cause).retold tell =
      atLine (tell number line).1 (tell number line).2 cause := by
  cases cause <;> rfl

variable {options options' : Options} {reference : Date} {tell : Nat → String → Nat × String}

namespace Draft

/-- A line is read as another one, and a fault is told of it. -/
theorem addLine_retold {rewrite : Line → Line} {text text' : List Char} {number number' : Nat}
    (hread : Line.ofText? text' = (Line.ofText? text).map rewrite)
    (hcarry : ∀ (d : Draft) (line : Line),
      d.carryOut options' reference (rewrite line) = d.carryOut options reference line)
    (htell : tell number (String.ofList text) = (number', String.ofList text')) (d : Draft) :
    d.addLine options' reference number' text' =
      (d.addLine options reference number text).mapError (Fault.retold tell) := by
  unfold addLine
  rw [hread]
  cases Line.ofText? text with
  | none =>
    refine congrArg Except.error ?_
    rw [Fault.retold, htell]
  | some line =>
    rw [Option.map_some]
    dsimp only
    rw [hcarry]
    cases d.carryOut options reference line with
    | ok d' => rfl
    | error cause =>
      refine congrArg Except.error ?_
      rw [Fault.retold_atLine, htell]

/-- What comes of a reading, with a fault told of another line. -/
def retoldOutcome (tell : Nat → String → Nat × String) (outcome : Draft × Option Fault) :
    Draft × Option Fault :=
  (outcome.1, outcome.2.map (Fault.retold tell))

theorem addLines_of_addLine {text text' : List Char} {number number' : Nat} {d : Draft}
    (h : d.addLine options' reference number' text' =
      (d.addLine options reference number text).mapError (Fault.retold tell)) :
    d.addLines options' reference number' [text'] =
      retoldOutcome tell (d.addLines options reference number [text]) := by
  rw [addLines, addLines, h]
  cases d.addLine options reference number text with
  | ok d' => rfl
  | error fault => rfl

/-- Some lines are read in the place of each line. The first line that stands for the line with
the number `n` has the number `start n`. -/
theorem addLines_flatMap {start : Nat → Nat} {chunk : Nat → List Char → List (List Char)}
    {body : List (List Char)}
    (hstart : ∀ number, 2 ≤ number → ∀ text ∈ body,
      start (number + 1) = start number + (chunk number text).length)
    (hchunk : ∀ (d : Draft) (number : Nat), 2 ≤ number → ∀ text ∈ body,
      d.addLines options' reference (start number) (chunk number text) =
        retoldOutcome tell (d.addLines options reference number [text]))
    (d : Draft) {number : Nat} (hnumber : 2 ≤ number) :
    d.addLines options' reference (start number)
        ((body.zipIdx number).flatMap fun p => chunk p.2 p.1) =
      retoldOutcome tell (d.addLines options reference number body) := by
  induction body generalizing d number with
  | nil => rfl
  | cons text body ih =>
    have hline := @addLines_append options reference d number [text] body
    rw [List.singleton_append] at hline
    rw [List.zipIdx_cons, List.flatMap_cons, addLines_append, hline,
      hchunk d number hnumber text List.mem_cons_self,
      ← hstart number hnumber text List.mem_cons_self]
    rcases d.addLines options reference number [text] with ⟨d₁, _ | fault⟩
    · exact ih (fun n hn t ht => hstart n hn t (List.mem_cons_of_mem _ ht))
        (fun d n hn t ht => hchunk d n hn t (List.mem_cons_of_mem _ ht)) d₁ (by omega)
    · rfl

end Draft

namespace Ledger

theorem readHeader_retold (hkeyword : options'.headerKeyword = options.headerKeyword)
    (htell : ∀ line, tell 1 line = (1, line)) (header : List Char) :
    readHeader options' header = (readHeader options header).mapError (Fault.retold tell) := by
  unfold readHeader
  rw [hkeyword]
  cases Line.header? options.headerKeyword header with
  | none => exact congrArg Except.error (by rw [Fault.retold, htell])
  | some written =>
    dsimp only
    cases written.toDate with
    | ok reference => rfl
    | error cause => exact congrArg Except.error (by rw [Fault.retold, htell])

theorem ofString_ofList {text header : List Char} {body : List (List Char)}
    (h : pieces [] text = header :: body) (options : Options) :
    ofString options (String.ofList text) = ofLines options header body := by
  refine ofString_eq_ofLines_of_isCut options ?_
  rw [String.toList_ofList]
  exact isCut_iff.mpr h

/-- A ledger of which some lines stand in the place of each line behind the header. -/
theorem ofLines_flatMap (hkeyword : options'.headerKeyword = options.headerKeyword)
    (htell : ∀ line, tell 1 line = (1, line)) (start : Nat → Nat)
    (chunk : Nat → List Char → List (List Char)) {body : List (List Char)} (htwo : start 2 = 2)
    (hstart : ∀ number, 2 ≤ number → ∀ text ∈ body,
      start (number + 1) = start number + (chunk number text).length)
    (hchunk : ∀ (reference : Date) (d : Draft) (number : Nat), 2 ≤ number → ∀ text ∈ body,
      d.addLines options' reference (start number) (chunk number text) =
        Draft.retoldOutcome tell (d.addLines options reference number [text]))
    (header : List Char) :
    ofLines options' header ((body.zipIdx 2).flatMap fun p => chunk p.2 p.1) =
      (ofLines options header body).mapError (Fault.retold tell) := by
  have hheader := readHeader_retold hkeyword htell header
  unfold ofLines
  rw [hheader]
  cases readHeader options header with
  | error fault => rfl
  | ok reference =>
    have hlines := Draft.addLines_flatMap hstart (hchunk reference) {} (Nat.le_refl 2)
    have hok : (Except.ok reference : Except Fault Date).mapError (Fault.retold tell) =
        .ok reference := rfl
    rw [htwo] at hlines
    rw [hok]
    dsimp only
    rw [hlines]
    rcases ({} : Draft).addLines options reference 2 body with ⟨d, _ | fault⟩
    · rfl
    · rfl

end Ledger

/-! ## Idle lines -/

/-- Idle lines are read and nothing is done about them. -/
theorem Draft.addLines_idle (options : Options) (reference : Date) {lines : List (List Char)}
    (h : ∀ line ∈ lines, IsIdle line) (d : Draft) (number : Nat) :
    d.addLines options reference number lines = (d, none) := by
  induction lines generalizing number with
  | nil => rfl
  | cons line lines ih =>
    obtain ⟨hline, hlines⟩ := List.forall_mem_cons.mp h
    refine addLines_cons_eq_none_iff.mpr ⟨d, addLine_eq_ok_iff.mpr ?_, ih hlines (number + 1)⟩
    rcases hline with hblank | hcomment
    · exact ⟨.blank, hblank.ofText?_eq, rfl⟩
    · exact ⟨.comment, hcomment.ofText?_eq, rfl⟩

/-- Idle lines at the end are without effect. -/
theorem Ledger.ofLines_append_idle (options : Options) (header : List Char)
    (body : List (List Char)) {lines : List (List Char)} (h : ∀ line ∈ lines, IsIdle line) :
    ofLines options header (body ++ lines) = ofLines options header body := by
  unfold ofLines
  cases readHeader options header with
  | error fault => rfl
  | ok reference =>
    dsimp only
    rw [Draft.addLines_append]
    rcases ({} : Draft).addLines options reference 2 body with ⟨d, _ | fault⟩
    · dsimp only
      rw [Draft.addLines_idle options reference h]
    · rfl

theorem IsIdle.keptBy {line : List Char} (h : IsIdle line) (returns : Bool) :
    IsIdle (keptBy returns line) := by
  unfold Text.keptBy
  split
  · next hcase =>
    rcases h with rfl | ⟨rest, rfl⟩
    · cases hcase.2
    · cases rest with
      | nil => cases hcase.2
      | cons c rest => exact .inr ⟨(c :: rest).dropLast, rfl⟩
  · exact h

/-! ## Layouts -/

/-- An empty line or a comment, and how it is broken off. -/
structure IdleLine where
  /-- The line. -/
  line : List Char
  /-- Whether a carriage return stands before its line feed. -/
  returns : Bool
  isIdle : IsIdle line
  feed_notMem : '\n' ∉ line

/-- What may be done to the layout of a text. -/
structure Layout where
  /-- Whether a carriage return is put before each line feed of the text. -/
  returns : Bool
  /-- The lines that are put in before the line with the number, unless it is the first. -/
  before : Nat → List IdleLine
  /-- The lines that are put in behind the last line, each behind its break. -/
  after : List IdleLine
  /-- Whether a line feed is put at the end. -/
  feed : Bool

namespace IdleLine

/-- The line as it is read before its break. -/
def kept (l : IdleLine) : List Char := keptBy l.returns l.line

theorem isIdle_kept (l : IdleLine) : IsIdle l.kept := l.isIdle.keptBy l.returns

/-- Lines put in front of a text. -/
theorem pieces_flatMap_append (ls : List IdleLine) (text : List Char) :
    pieces [] (ls.flatMap (fun l => l.line ++ lineBreak l.returns) ++ text) =
      ls.map kept ++ pieces [] text := by
  induction ls with
  | nil => rfl
  | cons l ls ih =>
    rw [List.flatMap_cons, List.append_assoc, List.append_assoc, pieces_line l.feed_notMem, ih,
      List.map_cons, List.cons_append, kept]

theorem keepsEnd (ls : List IdleLine) :
    KeepsEnd (ls.flatMap (fun l => l.line ++ lineBreak l.returns) ++ ·) := by
  intro text hlast
  induction ls with
  | nil => exact hlast
  | cons l ls ih =>
    refine ih (@getLast?_append_break l.line _ l.returns ?_)
    simpa using hlast

/-- Lines with breaks between them are read as idle lines. -/
theorem isIdle_of_mem_pieces {line : List Char} (hline : IsIdle line) (hfeed : '\n' ∉ line)
    (ls : List IdleLine) {piece : List Char}
    (hpiece : piece ∈ pieces [] (line ++ ls.flatMap fun l => lineBreak l.returns ++ l.line)) :
    IsIdle piece := by
  induction ls generalizing line with
  | nil =>
    rw [List.flatMap_nil, List.append_nil, pieces_of_feed_notMem hfeed,
      List.mem_singleton] at hpiece
    exact hpiece ▸ hline
  | cons l ls ih =>
    rw [List.flatMap_cons, List.append_assoc, pieces_line hfeed, List.mem_cons] at hpiece
    rcases hpiece with rfl | hpiece
    · exact hline.keptBy l.returns
    · exact ih l.isIdle l.feed_notMem hpiece

/-- Lines put behind a text. -/
theorem exists_pieces_append_flatMap {text : List Char} (h : text.getLast? ≠ some '\r')
    (ls : List IdleLine) :
    ∃ more, pieces [] (text ++ ls.flatMap fun l => lineBreak l.returns ++ l.line) =
        pieces [] text ++ more ∧ ∀ line ∈ more, IsIdle line := by
  cases ls with
  | nil => exact ⟨[], by simp, List.forall_mem_nil _⟩
  | cons l ls =>
    refine ⟨_, ?_, fun line hline => isIdle_of_mem_pieces l.isIdle l.feed_notMem ls hline⟩
    rw [List.flatMap_cons, List.append_assoc, pieces_append_break h]

/-- The empty line that a line feed at the end of a text makes. -/
def last : IdleLine := ⟨[], false, .inl rfl, List.not_mem_nil⟩

end IdleLine

namespace Layout

/-- The text in the layout. -/
def apply (layout : Layout) (text : List Char) : List Char :=
  mapBody (fun number line =>
      (layout.before number).flatMap (fun l => l.line ++ lineBreak l.returns) ++ line)
    (if layout.returns then withReturns text else text) ++
    layout.after.flatMap (fun l => lineBreak l.returns ++ l.line) ++
    if layout.feed then ['\n'] else []

/-- The number that the line with the given number has in the layout. -/
def place (layout : Layout) (number : Nat) : Nat :=
  number + ∑ n ∈ Finset.Ico 2 (number + 1), (layout.before n).length

/-- The lines are those of the body with idle lines among them: as many before each line as the
layout has there, and any at the end. -/
def Spreads (layout : Layout) (body lines : List (List Char)) : Prop :=
  ∃ (put : Nat → List (List Char)) (more : List (List Char)),
    (∀ number, (put number).length = (layout.before number).length) ∧
    (∀ number, ∀ line ∈ put number, IsIdle line) ∧ (∀ line ∈ more, IsIdle line) ∧
    lines = (body.zipIdx 2).flatMap (fun p => put p.2 ++ [p.1]) ++ more

variable {layout : Layout} {header : List Char} {body : List (List Char)}

/-- The lines of a text in the layout. -/
theorem exists_spreads_apply {text : List Char} (h : pieces [] text = header :: body)
    (hend : text.getLast? ≠ some '\r') (hreturns : layout.returns = true → '\r' ∉ text) :
    ∃ lines, pieces [] (layout.apply text) = header :: lines ∧ layout.Spreads body lines := by
  have hbody := (feed_notMem_of_pieces h).2
  have hkeeps (number : Nat) := IdleLine.keepsEnd (layout.before number)
  -- The breaks of the text can be taken as they are from here on.
  obtain ⟨broken, hbroken, hpieces, hlast⟩ : ∃ broken,
      (if layout.returns then withReturns text else text) = broken ∧
      pieces [] broken = header :: body ∧ broken.getLast? ≠ some '\r' := by
    split
    · next hcase =>
      refine ⟨_, rfl, (pieces_withReturns (hreturns hcase) []).trans h, ?_⟩
      rwa [getLast?_withReturns]
    · exact ⟨_, rfl, h, hend⟩
  -- A line feed at the end is an empty line put in there.
  have hafter : layout.after.flatMap (fun l => lineBreak l.returns ++ l.line) ++
      (if layout.feed then ['\n'] else []) =
      (layout.after ++ if layout.feed then [IdleLine.last] else []).flatMap
        fun l => lineBreak l.returns ++ l.line := by
    rw [List.flatMap_append]
    split
    · rfl
    · rfl
  obtain ⟨more, hmore, hidle⟩ := IdleLine.exists_pieces_append_flatMap
    (mt (getLast?_mapBody hkeeps) hlast)
    (layout.after ++ if layout.feed then [IdleLine.last] else [])
  have hlines := pieces_mapBody hkeeps hpieces
    (fun number line => (layout.before number).map IdleLine.kept ++ [line]) ?_
  · rw [hlines, List.cons_append] at hmore
    rw [apply, hbroken, List.append_assoc, hafter]
    refine ⟨_, hmore, fun number => (layout.before number).map IdleLine.kept, more,
      fun number => List.length_map _, fun number line hline => ?_, hidle, rfl⟩
    obtain ⟨l, -, rfl⟩ := List.mem_map.mp hline
    exact l.isIdle_kept
  · intro number line hline
    rw [IdleLine.pieces_flatMap_append, pieces_of_feed_notMem (hbody line hline)]

/-- The number of the first line that is put in before the line with the number. -/
def start (layout : Layout) (number : Nat) : Nat :=
  number + ∑ n ∈ Finset.Ico 2 number, (layout.before n).length

theorem start_add (layout : Layout) {number : Nat} (h : 2 ≤ number) :
    layout.start number + (layout.before number).length = layout.place number := by
  rw [start, place, Finset.sum_Ico_succ_top h, Nat.add_assoc]

theorem start_succ (layout : Layout) (number : Nat) :
    layout.start (number + 1) = layout.place number + 1 := by
  rw [start, place, Nat.add_right_comm]

theorem Spreads.ofLines_eq {lines : List (List Char)} (h : layout.Spreads body lines)
    (options : Options) (header : List Char) :
    Ledger.ofLines options header lines = (Ledger.ofLines options header body).mapError
      (Fault.retold fun number line => (layout.place number, line)) := by
  obtain ⟨put, more, hlength, hput, hmore, rfl⟩ := h
  rw [Ledger.ofLines_append_idle options header _ hmore]
  refine Ledger.ofLines_flatMap rfl ?_ layout.start (fun number text => put number ++ [text]) rfl
    ?_ ?_ header
  · exact fun _ => rfl
  · intro number hnumber text _
    rw [start_succ, ← layout.start_add hnumber, List.length_append, hlength, List.length_singleton,
      Nat.add_assoc]
  · intro reference d number hnumber text _
    have hline : d.addLine options reference (layout.place number) text =
        (d.addLine options reference number text).mapError
          (Fault.retold fun number line => (layout.place number, line)) := by
      refine Draft.addLine_retold (congrFun Option.map_id _).symm (fun _ _ => rfl) ?_ d
      rfl
    rw [Draft.addLines_append, Draft.addLines_idle options reference (hput number), hlength]
    dsimp only
    rw [layout.start_add hnumber]
    exact Draft.addLines_of_addLine hline

end Layout

namespace Ledger

/-- The layout of a text that does not end in a carriage return is of no account. Empty lines and
comments may be put in anywhere behind the header, a line feed at the end and, if there are no
carriage returns in the text, one before each line feed: the ledger is the same, and if there is
none, the reason is the same, on the same line, whose number has grown by the number of lines
that were put in before it. -/
theorem ofString_laidOut (options : Options) (layout : Layout) {text : String}
    (hend : text.toList.getLast? ≠ some '\r')
    (hreturns : layout.returns = true → '\r' ∉ text.toList) :
    ofString options (String.ofList (layout.apply text.toList)) =
      (ofString options text).mapError
        (Fault.retold fun number line => (layout.place number, line)) := by
  have htext : pieces [] text.toList =
      (cutAtBreaks [] text.toList).1 :: (cutAtBreaks [] text.toList).2 := rfl
  obtain ⟨lines, hlines, hspreads⟩ := Layout.exists_spreads_apply htext hend hreturns
  rw [ofString_ofList hlines, hspreads.ofLines_eq,
    ofString_eq_ofLines_of_isCut options (isCut_iff.mpr htext)]

/-- A comment and an empty line before the third line, one more comment, and carriage returns. -/
def airyLayout : Layout where
  returns := true
  before number :=
    if number = 3 then
      [⟨"// b".toList, true, .inr ⟨_, rfl⟩, by decide⟩, ⟨[], true, .inl rfl, by decide⟩]
    else []
  after := [⟨"//".toList, true, .inr ⟨_, rfl⟩, by decide⟩]
  feed := true

/-- A line that is none moves two lines down. -/
theorem ofString_laidOut_airy :
    String.ofList (airyLayout.apply "accounting_date 1.1.2024\naccount AA A\nx".toList) =
      "accounting_date 1.1.2024\r\naccount AA A\r\n// b\r\n\r\nx\r\n//\n" ∧
    ofString {} "accounting_date 1.1.2024\naccount AA A\nx" = .error (.lineMalformed 3 "x") ∧
    ofString {} (String.ofList
        (airyLayout.apply "accounting_date 1.1.2024\naccount AA A\nx".toList)) =
      .error (.lineMalformed 5 "x") := by
  have hread : ofString {} "accounting_date 1.1.2024\naccount AA A\nx" =
      .error (.lineMalformed 3 "x") := by
    decide +kernel
  refine ⟨by decide +kernel, hread, ?_⟩
  rw [ofString_laidOut {} airyLayout (by decide +kernel) (fun _ => by decide +kernel), hread]
  decide +kernel

end Ledger

end HouseLedger
