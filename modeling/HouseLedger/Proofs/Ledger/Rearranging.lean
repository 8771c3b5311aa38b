import HouseLedger.Proofs.Ledger.Contents

/-!
# The order of lines

Which lines of a ledger may change places? A line is sound or not by itself
(`Line.Sound`); what it needs of the lines before it is that its acronyms are declared there
(`DeclaresFirst`), that none is declared twice, and that alike invoices do not come to too much.

* `allAcceptable_iff`: lines are all acceptable if they are sound, declare first, declare no
  acronym twice and ask for invoices that can be entered one after the other. Only the second of
  these depends on where a line stands among those of other kinds.
* `Ledger.ofString_rearranged`: the lines behind the header may be rearranged, as long as the
  account lines, the invoice lines and the payment lines each keep their order: what they give
  is the same ledger, if and only if they still declare first.
-/

namespace HouseLedger

open Outcome Text

variable {options : Options} {reference : Date} {body body' : List (List Char)}

/-! ## Kinds of lines -/

namespace Line

/-- The kinds of lines that reading does something about. -/
inductive Kind where
  /-- The declaration of an account. -/
  | account
  /-- An invoice. -/
  | invoice
  /-- A payment. -/
  | payment
  deriving DecidableEq

/-- The kind of a line; an empty line and a comment have none. -/
def kind? : Line → Option Kind
  | account .. => some .account
  | invoice _ => some .invoice
  | payment _ => some .payment
  | _ => none

end Line

/-- Whether the text is a line of the kind. -/
def IsOfKind (kind : Line.Kind) (text : List Char) : Prop :=
  (Line.ofText? text).bind Line.kind? = some kind

instance (kind : Line.Kind) (text : List Char) : Decidable (IsOfKind kind text) :=
  inferInstanceAs (Decidable (_ = _))

/-- The lines of one kind, in their order. -/
def linesOf (kind : Line.Kind) (lines : List (List Char)) : List (List Char) :=
  lines.filter fun text => IsOfKind kind text

/-- The text is an empty line or a comment. -/
def IsIdle (text : List Char) : Prop := Line.blank.Spells text ∨ Line.comment.Spells text

theorem isOfKind_of_spells {line : Line} {text : List Char} (h : line.Spells text)
    {kind : Line.Kind} : IsOfKind kind text ↔ line.kind? = some kind := by
  rw [IsOfKind, h.ofText?_eq, Option.bind_some]

theorem isIdle_of_spells {line : Line} {text : List Char} (h : line.Spells text) :
    IsIdle text ↔ line.kind? = none := by
  constructor
  · rintro (hblank | hcomment)
    · rw [h.unique hblank]
      rfl
    · rw [h.unique hcomment]
      rfl
  · intro hkind
    cases line with
    | blank => exact .inl h
    | comment => exact .inr h
    | account => cases hkind
    | invoice => cases hkind
    | payment => cases hkind

/-- What only lines of one kind ask for can be had from these lines alone. -/
theorem flatMap_linesOf {α : Type} {kind : Line.Kind} {f : List Char → List α}
    (hf : ∀ text, ¬ IsOfKind kind text → f text = []) (lines : List (List Char)) :
    (linesOf kind lines).flatMap f = lines.flatMap f := by
  induction lines with
  | nil => rfl
  | cons text lines ih =>
    rw [linesOf] at ih ⊢
    by_cases h : IsOfKind kind text
    · rw [List.filter_cons_of_pos (by simpa using h), List.flatMap_cons, List.flatMap_cons, ih]
    · rw [List.filter_cons_of_neg (by simpa using h), List.flatMap_cons, hf text h, ih,
        List.nil_append]

theorem accountsOf_eq_nil {text : List Char} (h : ¬ IsOfKind .account text) :
    accountsOf text = [] := by
  rw [accountsOf]
  rw [IsOfKind] at h
  cases hline : Line.ofText? text with
  | none => rfl
  | some line =>
    rw [hline] at h
    cases line with
    | account => exact absurd rfl h
    | _ => rfl

theorem invoicesOf_eq_nil {accounts : Registry} {text : List Char} (h : ¬ IsOfKind .invoice text) :
    invoicesOf options reference accounts text = [] := by
  rw [invoicesOf]
  rw [IsOfKind] at h
  cases hline : Line.ofText? text with
  | none => rfl
  | some line =>
    rw [hline] at h
    cases line with
    | invoice => exact absurd rfl h
    | _ => rfl

theorem paymentsOf_eq_nil {accounts : Registry} {text : List Char} (h : ¬ IsOfKind .payment text) :
    paymentsOf reference accounts text = [] := by
  rw [paymentsOf]
  rw [IsOfKind] at h
  cases hline : Line.ofText? text with
  | none => rfl
  | some line =>
    rw [hline] at h
    cases line with
    | payment => exact absurd rfl h
    | _ => rfl

theorem declared_linesOf (lines : List (List Char)) :
    declared (linesOf .account lines) = declared lines :=
  flatMap_linesOf (fun _ => accountsOf_eq_nil) lines

/-! ## What depends on the order -/

/-- The line is of real dates, and an invoice can be shared out and moves on if it recurs. -/
structure Line.Sound (options : Options) (reference : Date) (line : Line) : Prop where
  real : ∀ w ∈ line.dates, w.IsReal
  moving : ∀ l, line = invoice l → ¬ l.Stalls options reference
  sharable : ∀ l, line = invoice l → ¬ l.Overshares reference

/-- Every acronym that a line refers to is declared by a line before it. -/
def DeclaresFirst (body : List (List Char)) : Prop :=
  ∀ before text after, body = before ++ text :: after →
    ∀ line : Line, line.Spells text → ∀ acronym ∈ line.parties, Declared before acronym

/-- No acronym is declared twice. -/
def DeclaresOnce (body : List (List Char)) : Prop := ((declared body).map (·.acronym)).Nodup

theorem declaresOnce_concat_iff {text : List Char} {line : Line} (htext : line.Spells text) :
    DeclaresOnce (body ++ [text]) ↔
      DeclaresOnce body ∧ ∀ acronym name, line = .account acronym name →
        ¬ Declared body acronym := by
  rw [DeclaresOnce, declared, List.flatMap_append, List.flatMap_singleton, accountsOf,
    htext.ofText?_eq, ← declared, Option.map_some, Option.getD_some, List.map_append,
    List.nodup_append_comm]
  cases line with
  | account acronym name =>
    simp only [Line.declares, List.map_cons, List.map_nil, List.singleton_append, List.nodup_cons,
      ← declared_iff_mem, DeclaresOnce, Line.account.injEq, and_imp]
    constructor
    · rintro ⟨hnew, honce⟩
      exact ⟨honce, fun _ _ h _ => h ▸ hnew⟩
    · rintro ⟨honce, hnew⟩
      exact ⟨hnew acronym name rfl rfl, honce⟩
  | _ => simp [Line.declares, DeclaresOnce]

theorem declaresFirst_concat_iff {text : List Char} {line : Line} (htext : line.Spells text) :
    DeclaresFirst (body ++ [text]) ↔
      DeclaresFirst body ∧ ∀ acronym ∈ line.parties, Declared body acronym := by
  constructor
  · intro h
    refine ⟨fun before text' after hbody => h before text' (after ++ [text]) (by simp [hbody]), ?_⟩
    exact h body text [] rfl line htext
  · rintro ⟨hbody, hlast⟩ before text' after heq line' hline'
    rcases List.eq_nil_or_concat after with rfl | ⟨after, last, rfl⟩
    · obtain ⟨rfl, heq⟩ := List.append_inj' heq rfl
      obtain rfl : text = text' := by simpa using heq
      rwa [hline'.unique htext]
    · rw [List.concat_eq_append, ← List.cons_append, ← List.append_assoc] at heq
      obtain ⟨heq, -⟩ := List.append_inj' heq rfl
      exact hbody before text' after heq line' hline'

/-- Lines are all acceptable if each is sound and declared for, and if all invoices can be entered,
whether or not more accounts are known. -/
theorem allAcceptable_of_enterable {r : Registry} (hr : r.Distinct)
    (hkept : declared body <+: r.accounts)
    (hsound : ∀ text ∈ body, ∃ line : Line, line.Spells text ∧ line.Sound options reference)
    (hfirst : DeclaresFirst body) (honce : DeclaresOnce body)
    (henterable : Draft.Enterable options.mergeInvoices []
      (body.flatMap (invoicesOf options reference r))) : AllAcceptable options reference body := by
  induction body using List.reverseRecOn with
  | nil => exact allAcceptable_nil
  | append_singleton body text ih =>
    obtain ⟨line, hline, hreal, hmoving, hsharable⟩ :=
      hsound text (List.mem_append_right _ List.mem_cons_self)
    obtain ⟨hfirst, hdeclared⟩ := (declaresFirst_concat_iff hline).mp hfirst
    obtain ⟨honce, hfresh⟩ := (declaresOnce_concat_iff hline).mp honce
    have hbefore : declared body <+: r.accounts := by
      rw [declared, List.flatMap_append, ← declared] at hkept
      exact (List.prefix_append _ _).trans hkept
    have hinit := henterable
    rw [List.flatMap_append, Draft.enterable_append] at hinit
    have hall := ih hbefore (fun text' htext' => hsound text' (List.mem_append_left _ htext'))
      hfirst honce hinit.1
    refine allAcceptable_concat_iff.mpr ⟨hall, line, hline,
      ⟨⟨hfresh, hdeclared, hreal, hmoving⟩, hsharable, ?_⟩⟩
    rintro l rfl hover
    exact hover.not_enterable hall hline hr hbefore [] henterable

/-- What makes all lines acceptable. A line is sound wherever it stands, and the accounts and
invoices are the same in every order; it is by their first use alone that lines depend on those of
other kinds. -/
theorem allAcceptable_iff : AllAcceptable options reference body ↔
    (∀ text ∈ body, ∃ line : Line, line.Spells text ∧ line.Sound options reference) ∧
      DeclaresFirst body ∧ DeclaresOnce body ∧ Draft.Enterable options.mergeInvoices []
        (body.flatMap (invoicesOf options reference (accountsBehind body))) := by
  constructor
  · intro h
    obtain ⟨d, -, hd⟩ := h.exists_consists
    refine ⟨fun text htext => ?_, fun before text after hbody line hline => ?_, h.distinct,
      hd.enterable _ h.distinct (hd.accounts_eq ▸ List.prefix_refl _)⟩
    · obtain ⟨before, after, hbody⟩ := List.append_of_mem htext
      obtain ⟨line, hline, hadmissible⟩ := h before text after hbody
      exact ⟨line, hline, hadmissible.real, hadmissible.moving, hadmissible.sharable⟩
    · obtain ⟨line', hline', hadmissible⟩ := h before text after hbody
      rw [hline.unique hline']
      exact hadmissible.declared
  · rintro ⟨hsound, hfirst, honce, henterable⟩
    exact allAcceptable_of_enterable (r := accountsBehind body) honce (List.prefix_refl _) hsound
      hfirst honce henterable

/-! ## Rearranged lines -/

/-- The lines of each kind are the same in the same order. Empty lines and comments may be
anywhere. -/
structure Rearranges (body body' : List (List Char)) : Prop where
  same_order : ∀ kind, linesOf kind body' = linesOf kind body
  others_idle : ∀ text ∈ body', (∀ kind, ¬ IsOfKind kind text) → IsIdle text

namespace Rearranges

/-- Lines that change places without passing one of their own kind are rearranged. -/
theorem of_perm (hperm : body'.Perm body) (horder : ∀ kind, linesOf kind body' = linesOf kind body)
    (hread : ∀ text ∈ body, ∃ line : Line, line.Spells text) : Rearranges body body' := by
  refine ⟨horder, fun text htext hkind => ?_⟩
  obtain ⟨line, hline⟩ := hread text (hperm.mem_iff.mp htext)
  refine (isIdle_of_spells hline).mpr (Option.eq_none_iff_forall_ne_some.mpr fun kind h => ?_)
  exact hkind kind ((isOfKind_of_spells hline).mpr h)

theorem declared_eq (h : Rearranges body body') : declared body' = declared body := by
  rw [← declared_linesOf, h.same_order, declared_linesOf]

theorem invoices_eq (h : Rearranges body body') (options : Options) (reference : Date)
    (accounts : Registry) : body'.flatMap (invoicesOf options reference accounts) =
      body.flatMap (invoicesOf options reference accounts) := by
  rw [← flatMap_linesOf (fun _ => invoicesOf_eq_nil), h.same_order,
    flatMap_linesOf fun _ => invoicesOf_eq_nil]

theorem written_eq (h : Rearranges body body') (options : Options) (reference : Date) :
    Ledger.written options reference body' = Ledger.written options reference body := by
  have hpayments : ∀ accounts, body'.flatMap (paymentsOf reference accounts) =
      body.flatMap (paymentsOf reference accounts) := by
    intro accounts
    rw [← flatMap_linesOf (fun _ => paymentsOf_eq_nil), h.same_order,
      flatMap_linesOf fun _ => paymentsOf_eq_nil]
  unfold Ledger.written
  dsimp only
  rw [h.declared_eq, h.invoices_eq, hpayments]

theorem sound (h : Rearranges body body')
    (hbody : ∀ text ∈ body, ∃ line : Line, line.Spells text ∧ line.Sound options reference) :
    ∀ text ∈ body', ∃ line : Line, line.Spells text ∧ line.Sound options reference := by
  intro text htext
  by_cases hkind : ∃ kind, IsOfKind kind text
  · obtain ⟨kind, hkind⟩ := hkind
    have hmem : text ∈ linesOf kind body' := List.mem_filter.mpr ⟨htext, by simpa using hkind⟩
    rw [h.same_order] at hmem
    exact hbody text (List.mem_filter.mp hmem).1
  · rcases h.others_idle text htext (not_exists.mp hkind) with hblank | hcomment
    · exact ⟨.blank, hblank, by simp [Line.dates], by rintro _ ⟨⟩, by rintro _ ⟨⟩⟩
    · exact ⟨.comment, hcomment, by simp [Line.dates], by rintro _ ⟨⟩, by rintro _ ⟨⟩⟩

/-- Rearranged lines are acceptable as the others are, but for what they refer to. -/
theorem allAcceptable_iff_declaresFirst (h : Rearranges body body')
    (hall : AllAcceptable options reference body) :
    AllAcceptable options reference body' ↔ DeclaresFirst body' := by
  obtain ⟨hsound, -, honce, henterable⟩ := allAcceptable_iff.mp hall
  rw [allAcceptable_iff, DeclaresOnce, h.invoices_eq, accountsBehind, h.declared_eq]
  exact ⟨fun h' => h'.2.1, fun hfirst => ⟨h.sound hsound, hfirst, honce, henterable⟩⟩

end Rearranges

namespace Ledger

/-- The lines of a ledger may change places as long as the account lines, the invoice lines and
the payment lines each keep their order: the ledger stays the same just where every acronym is
still declared before it is used. -/
theorem ofString_rearranged {options : Options} {text text' : String} {l : Ledger}
    (h : ofString options text = .ok l)
    (hheader : (splitLines text'.toList).1 = (splitLines text.toList).1)
    (hbody : Rearranges (splitLines text.toList).2 (splitLines text'.toList).2) :
    ofString options text' = .ok l ↔ DeclaresFirst (splitLines text'.toList).2 := by
  rw [ofString_eq_ofLines] at h ⊢
  obtain ⟨reference, hreference, hall, rfl⟩ := ofLines_eq_ok_iff_written.mp h
  rw [hheader, ofLines_eq_ok_iff_written, ← hbody.allAcceptable_iff_declaresFirst hall]
  constructor
  · rintro ⟨reference', hreference', hall', -⟩
    rwa [hreference.unique hreference']
  · intro hall'
    exact ⟨reference, hreference, hall', (hbody.written_eq options reference).symm⟩

/-- Two accounts, a bill, a payment and a comment. -/
def jamText : String :=
  "accounting_date 1.2.2024\naccount AA Anna\naccount BB Bert\n" ++
    "invoice AA -> BB 6.00 4.1.2024 Tea\npayment BB -> AA 2.00 5.1.2024 Jam\n//\n"

/-- The same lines, with the comment between the accounts and the payment before the bill. -/
def jamTextRearranged : String :=
  "accounting_date 1.2.2024\naccount AA Anna\n//\naccount BB Bert\n" ++
    "payment BB -> AA 2.00 5.1.2024 Jam\ninvoice AA -> BB 6.00 4.1.2024 Tea\n"

theorem ofString_rearranged_jam : ∃ l, ofString {} jamText = .ok l ∧
    Rearranges (splitLines jamText.toList).2 (splitLines jamTextRearranged.toList).2 ∧
      DeclaresFirst (splitLines jamTextRearranged.toList).2 ∧
      ofString {} jamTextRearranged = .ok l := by
  have hread : (ofString {} jamText).toOption.isSome = true ∧
      (ofString {} jamTextRearranged).toOption = (ofString {} jamText).toOption := by
    decide +kernel
  have hlines : (splitLines jamTextRearranged.toList).1 = (splitLines jamText.toList).1 ∧
      (splitLines jamTextRearranged.toList).2.Perm (splitLines jamText.toList).2 ∧
      (∀ kind ∈ [Line.Kind.account, .invoice, .payment],
        linesOf kind (splitLines jamTextRearranged.toList).2 =
          linesOf kind (splitLines jamText.toList).2) ∧
      ∀ text ∈ (splitLines jamText.toList).2, (Line.ofText? text).isSome = true := by
    decide +kernel
  obtain ⟨hheader, hperm, horder, hall⟩ := hlines
  obtain ⟨l, hl⟩ := Option.isSome_iff_exists.mp hread.1
  have hl' : ofString {} jamTextRearranged = .ok l := toOption_eq_some.mp (hread.2.trans hl)
  rw [toOption_eq_some] at hl
  have hbody := Rearranges.of_perm hperm (fun kind => horder kind (by cases kind <;> simp))
    fun text htext => by
      obtain ⟨line, hline⟩ := Option.isSome_iff_exists.mp (hall text htext)
      exact ⟨line, Line.ofText?_eq_some_iff.mp hline⟩
  exact ⟨l, hl, hbody, (ofString_rearranged hl hheader hbody).mp hl', hl'⟩

end Ledger

end HouseLedger
