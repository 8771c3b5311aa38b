import HouseLedger.Proofs.Text.Lines
import Mathlib.Data.List.Basic

/-!
# Texts written anew

What becomes of the lines of a text if it is written anew, line by line or break by break.

* `Text.mapBody` writes something in the place of each line behind the first and keeps all
  breaks. The new lines are those of what was written (`Text.pieces_mapBody`), provided that no
  line gets a carriage return at its end, which would be taken for a part of the break.
* A break ends the text before it, and a line feed takes a carriage return at the end of a line
  along with it (`Text.pieces_line`, `Text.pieces_append_break`).
* `Text.withReturns` puts a carriage return before each line feed. A text without carriage
  returns keeps its lines (`Text.pieces_withReturns`).
-/

namespace HouseLedger

namespace Text

/-! ## Text behind a break -/

/-- A line feed ends the text before it, unless a carriage return would go with it. -/
theorem pieces_append_feed {text : List Char} (h : text.getLast? ≠ some '\r')
    (line rest : List Char) :
    pieces line (text ++ '\n' :: rest) = pieces line text ++ pieces [] rest := by
  induction text generalizing line with
  | nil => rfl
  | cons c text ih =>
    have htext : text.getLast? ≠ some '\r' := by
      intro hlast
      rw [List.getLast?_cons, hlast] at h
      exact h rfl
    rw [List.cons_append]
    rcases char_cases c text with rfl | ⟨rfl, hhead⟩ | ⟨hfeed, hreturn⟩
    · rw [pieces_feed, pieces_feed, ih htext, List.cons_append]
    · rw [pieces_return line hhead, pieces_return line (by rw [List.head?_append, hhead]; rfl),
        ih htext]
    · have hnext : ¬ (c = '\r' ∧ (text ++ '\n' :: rest).head? = some '\n') := by
        rintro ⟨rfl, hhead⟩
        cases text with
        | nil => exact h rfl
        | cons d text => exact hreturn ⟨rfl, hhead⟩
      rw [pieces_cons line hfeed hnext, pieces_cons line hfeed hreturn, ih htext]

/-- A carriage return and a line feed end the text before them. -/
theorem pieces_append_return (line text rest : List Char) :
    pieces line (text ++ '\r' :: '\n' :: rest) = pieces line text ++ pieces [] rest := by
  induction text generalizing line with
  | nil => rfl
  | cons c text ih =>
    rw [List.cons_append]
    rcases char_cases c text with rfl | ⟨rfl, hhead⟩ | ⟨hfeed, hreturn⟩
    · rw [pieces_feed, pieces_feed, ih, List.cons_append]
    · rw [pieces_return line hhead, pieces_return line (by rw [List.head?_append, hhead]; rfl), ih]
    · have hnext : ¬ (c = '\r' ∧ (text ++ '\r' :: '\n' :: rest).head? = some '\n') := by
        rintro ⟨rfl, hhead⟩
        cases text with
        | nil => simp at hhead
        | cons d text => exact hreturn ⟨rfl, hhead⟩
      rw [pieces_cons line hfeed hnext, pieces_cons line hfeed hreturn, ih]

/-- A text without line feeds is one piece. -/
theorem pieces_of_feed_notMem {text : List Char} (h : '\n' ∉ text) : pieces [] text = [text] :=
  (IsCut.last h).pieces_eq

/-! ## Line by line -/

/-- Writes `f n l` for the line `l` with the number `n`, and the breaks as they are. `line`
holds, last character first, what was read of the current line, and `number` is its number. -/
def mapLines (f : Nat → List Char → List Char) (number : Nat) (line : List Char) :
    List Char → List Char
  | [] => f number line.reverse
  | '\n' :: rest => f number line.reverse ++ '\n' :: mapLines f (number + 1) [] rest
  | '\r' :: '\n' :: rest => f number line.reverse ++ '\r' :: '\n' :: mapLines f (number + 1) [] rest
  | c :: rest => mapLines f number (c :: line) rest

/-- What `mapBody` writes for the line with the number. -/
def onBody (f : Nat → List Char → List Char) (number : Nat) (line : List Char) : List Char :=
  if number = 1 then line else f number line

/-- Writes `f n l` for each line `l` behind the first, where `n` is its number. -/
def mapBody (f : Nat → List Char → List Char) (text : List Char) : List Char :=
  mapLines (onBody f) 1 [] text

/-- What is written for a line does not end in a carriage return, unless the line does. -/
def KeepsEnd (f : List Char → List Char) : Prop :=
  ∀ line, (f line).getLast? = some '\r' → line.getLast? = some '\r'

variable {f : Nat → List Char → List Char}

theorem pieces_mapLines (hf : ∀ number, KeepsEnd (f number)) (number : Nat)
    {line text : List Char} (hbreak : line.head? = some '\r' → text.head? ≠ some '\n') :
    pieces [] (mapLines f number line text) =
      ((pieces line text).zipIdx number).flatMap fun p => pieces [] (f p.2 p.1) := by
  induction number, line, text using mapLines.induct with
  | case1 number line => simp [mapLines, pieces_nil]
  | case2 number line rest ih =>
    have hlast : (f number line.reverse).getLast? ≠ some '\r' := by
      intro hlast
      have hline := hf number line.reverse hlast
      rw [List.getLast?_reverse] at hline
      exact hbreak hline rfl
    rw [mapLines, pieces_append_feed hlast, ih (by simp), pieces_feed, List.zipIdx_cons,
      List.flatMap_cons]
  | case3 number line rest ih =>
    rw [mapLines, pieces_append_return, ih (by simp), pieces_return line rfl, pieces_feed,
      List.zipIdx_cons, List.flatMap_cons]
  | case4 number line c rest hfeed hreturn ih =>
    have hnext : ¬ (c = '\r' ∧ rest.head? = some '\n') := by
      rintro ⟨rfl, hhead⟩
      obtain ⟨tail, rfl⟩ := List.head?_eq_some_iff.mp hhead
      exact hreturn tail rfl rfl
    rw [mapLines, ih, pieces_cons line hfeed hnext]
    · intro hc hhead
      exact hnext ⟨Option.some.inj hc, hhead⟩
    · exact hfeed
    · exact hreturn

theorem getLast?_append_feed {text rest : List Char}
    (h : (text ++ '\n' :: rest).getLast? = some '\r') : rest.getLast? = some '\r' := by
  rw [List.getLast?_append, List.getLast?_cons] at h
  cases hlast : rest.getLast? with
  | none =>
    rw [hlast] at h
    cases h
  | some c =>
    rw [hlast] at h
    exact h

theorem getLast?_mapLines (hf : ∀ number, KeepsEnd (f number)) {number : Nat}
    {line text : List Char} (h : (mapLines f number line text).getLast? = some '\r') :
    (line.reverse ++ text).getLast? = some '\r' := by
  induction number, line, text using mapLines.induct with
  | case1 number line =>
    rw [List.append_nil]
    exact hf number line.reverse h
  | case2 number line rest ih =>
    have hrest := ih (getLast?_append_feed h)
    rw [List.getLast?_append, List.getLast?_cons, show rest.getLast? = some '\r' from hrest]
    rfl
  | case3 number line rest ih =>
    rw [mapLines, List.append_cons] at h
    have hrest := ih (getLast?_append_feed h)
    rw [List.getLast?_append, List.getLast?_cons, List.getLast?_cons,
      show rest.getLast? = some '\r' from hrest]
    rfl
  | case4 number line c rest hfeed hreturn ih =>
    rw [mapLines] at h
    · simpa using ih h
    · exact hfeed
    · exact hreturn

theorem keepsEnd_onBody (hf : ∀ number, KeepsEnd (f number)) (number : Nat) :
    KeepsEnd (onBody f number) := by
  intro line h
  unfold onBody at h
  split at h
  · exact h
  · exact hf number line h

theorem feed_notMem_of_pieces {text header : List Char} {body : List (List Char)}
    (h : pieces [] text = header :: body) : '\n' ∉ header ∧ ∀ line ∈ body, '\n' ∉ line :=
  List.forall_mem_cons.mp (isCut_iff.mpr h).feed_notMem

/-- The first line stays as it is, and those behind it are the lines of what was written. -/
theorem pieces_mapBody (hf : ∀ number, KeepsEnd (f number)) {text header : List Char}
    {body : List (List Char)} (h : pieces [] text = header :: body)
    (chunk : Nat → List Char → List (List Char))
    (hbody : ∀ number, ∀ line ∈ body, pieces [] (f number line) = chunk number line) :
    pieces [] (mapBody f text) = header :: (body.zipIdx 2).flatMap fun p => chunk p.2 p.1 := by
  have hheader : pieces [] (onBody f 1 header) = [header] := by
    rw [onBody, if_pos rfl, pieces_of_feed_notMem (feed_notMem_of_pieces h).1]
  have hchunk : ∀ p ∈ body.zipIdx 2, pieces [] (onBody f p.2 p.1) = chunk p.2 p.1 := by
    intro p hp
    have hnumber := List.le_snd_of_mem_zipIdx hp
    rw [onBody, if_neg (by omega), hbody p.2 p.1 (List.fst_mem_of_mem_zipIdx hp)]
  rw [mapBody, pieces_mapLines (keepsEnd_onBody hf) 1 (by simp), h, List.zipIdx_cons,
    List.flatMap_cons, hheader, List.singleton_append, List.flatMap_congr hchunk]

theorem getLast?_mapBody (hf : ∀ number, KeepsEnd (f number)) {text : List Char}
    (h : (mapBody f text).getLast? = some '\r') : text.getLast? = some '\r' :=
  getLast?_mapLines (keepsEnd_onBody hf) h

/-! ## Breaks -/

/-- A line feed, with a carriage return before it or without. -/
def lineBreak (returns : Bool) : List Char := if returns then ['\r', '\n'] else ['\n']

/-- What a break leaves of the line before it: a line feed takes a carriage return at the end of
the line along with it. -/
def keptBy (returns : Bool) (line : List Char) : List Char :=
  if returns = false ∧ line.getLast? = some '\r' then line.dropLast else line

/-- A break ends the text before it. -/
theorem pieces_append_break {text : List Char} (h : text.getLast? ≠ some '\r') (returns : Bool)
    (rest : List Char) :
    pieces [] (text ++ (lineBreak returns ++ rest)) = pieces [] text ++ pieces [] rest := by
  cases returns with
  | true => exact pieces_append_return [] text rest
  | false => exact pieces_append_feed h [] rest

/-- A break ends the line before it. -/
theorem pieces_line {line : List Char} (h : '\n' ∉ line) (returns : Bool) (rest : List Char) :
    pieces [] (line ++ (lineBreak returns ++ rest)) = keptBy returns line :: pieces [] rest := by
  have hline := pieces_of_feed_notMem h
  cases returns with
  | true => exact (pieces_append_return [] line rest).trans (congrArg (· ++ pieces [] rest) hline)
  | false =>
    by_cases hlast : line.getLast? = some '\r'
    · obtain ⟨before, rfl⟩ := List.getLast?_eq_some_iff.mp hlast
      have hbefore : '\n' ∉ before := fun hmem => h (List.mem_append_left _ hmem)
      rw [keptBy, if_pos ⟨rfl, hlast⟩, List.dropLast_concat, List.append_assoc]
      exact (pieces_append_return [] before rest).trans
        (congrArg (· ++ pieces [] rest) (pieces_of_feed_notMem hbefore))
    · rw [pieces_append_break hlast, hline, keptBy, if_neg fun hcase => hlast hcase.2,
        List.singleton_append]

theorem getLast?_append_break {text rest : List Char} {returns : Bool}
    (h : (text ++ (lineBreak returns ++ rest)).getLast? = some '\r') :
    rest.getLast? = some '\r' := by
  cases returns with
  | true =>
    rw [← List.append_assoc] at h
    exact @getLast?_append_feed (text ++ ['\r']) rest (by simpa [lineBreak] using h)
  | false => exact getLast?_append_feed h

/-! ## Carriage returns -/

/-- The text with a carriage return before each line feed. -/
def withReturns (text : List Char) : List Char :=
  text.flatMap fun c => if c = '\n' then ['\r', '\n'] else [c]

theorem withReturns_feed (rest : List Char) :
    withReturns ('\n' :: rest) = '\r' :: '\n' :: withReturns rest := rfl

theorem withReturns_cons {c : Char} (h : c ≠ '\n') (rest : List Char) :
    withReturns (c :: rest) = c :: withReturns rest := by
  rw [withReturns, List.flatMap_cons, if_neg h, List.singleton_append, withReturns]

/-- A text without carriage returns keeps its lines. -/
theorem pieces_withReturns {text : List Char} (h : '\r' ∉ text) (line : List Char) :
    pieces line (withReturns text) = pieces line text := by
  induction text generalizing line with
  | nil => rfl
  | cons c text ih =>
    obtain ⟨hc, htext⟩ := not_or.mp (mt List.mem_cons.mpr h)
    by_cases hfeed : c = '\n'
    · subst hfeed
      rw [withReturns_feed, pieces_return line rfl, pieces_feed, pieces_feed, ih htext]
    · rw [withReturns_cons hfeed, pieces_cons line hfeed fun hr => hc hr.1.symm,
        pieces_cons line hfeed fun hr => hc hr.1.symm, ih htext]

theorem getLast?_withReturns (text : List Char) : (withReturns text).getLast? = text.getLast? := by
  rcases List.eq_nil_or_concat text with rfl | ⟨front, c, rfl⟩
  · rfl
  · rw [List.concat_eq_append]
    by_cases hfeed : c = '\n'
    · simp [withReturns, hfeed]
    · simp [withReturns, hfeed]

end Text

end HouseLedger
