import HouseLedger.Proofs.Ledger.Rearranging
import HouseLedger.Proofs.Report.Matching

/-!
# The order of accounts

An account is known by its acronym; its index only says where it was declared. Where all
accounts are declared before they are used (`AccountsFirst`), the account lines may be permuted
among their places (`PermutesAccounts`). The permuted text is a ledger as well, and it is the
same but for the indices: `Ledger.ofString_permuted` gives the permutation of the indices by
which the transactions of the one are those of the other, and says that every statement has the
same title, the same file and the same text.
-/

namespace HouseLedger

open Outcome Text

variable {options : Options} {reference : Date} {body body' : List (List Char)}

/-! ## Renumbering -/

namespace Registry

variable {r r' : Registry} {i j : ℤ}

theorem Agrees.symm (h : r.Agrees r') : r'.Agrees r := ⟨h.distinct', h.distinct, h.perm.symm⟩

/-- The index in the second registry of the account that has an index in the first. What is no
index stays as it is. -/
def place (r r' : Registry) (i : ℕ) : ℕ :=
  match r.accounts[i]? with
  | some account => (r'.find? account.acronym).getD i
  | none => i

theorem Agrees.place_eq (h : r.Agrees r') {m n : ℕ} {account : Account}
    (hm : r.accounts[m]? = some account) (hn : r'.accounts[n]? = some account) :
    r.place r' m = n := by
  have hfind := h.distinct'.find?_eq_some_iff.mpr ⟨account, hn, rfl⟩
  rw [place, hm]
  dsimp only
  rw [hfind, Option.getD_some]

/-- An account is found in its new place. -/
theorem Agrees.getElem?_place (h : r.Agrees r') (i : ℕ) :
    r'.accounts[r.place r' i]? = r.accounts[i]? := by
  cases hi : r.accounts[i]? with
  | none =>
    rw [place, hi, List.getElem?_eq_none_iff, ← h.perm.length_eq]
    exact List.getElem?_eq_none_iff.mp hi
  | some account =>
    obtain ⟨n, hn⟩ := List.mem_iff_getElem?.mp (h.perm.mem_iff.mp (List.mem_of_getElem? hi))
    rw [h.place_eq hi hn, hn]

/-- And it is led back from there. -/
theorem Agrees.place_place (h : r.Agrees r') (i : ℕ) : r'.place r (r.place r' i) = i := by
  cases hi : r.accounts[i]? with
  | none =>
    have hi' := h.getElem?_place i
    have hplace : r.place r' i = i := by rw [place, hi]
    rw [hplace, hi] at hi'
    rw [hplace, place, hi']
  | some account =>
    exact h.symm.place_eq ((h.getElem?_place i).trans hi) hi

/-- The permutation of the indices that leads each account to its new place. -/
def Agrees.renumbering (h : r.Agrees r') : Equiv.Perm ℕ where
  toFun := r.place r'
  invFun := r'.place r
  left_inv := h.place_place
  right_inv := h.symm.place_place

theorem Agrees.eq_renumbering (h : r.Agrees r') (hij : r.Shares r' i j) :
    j = h.renumbering i.toNat := by
  obtain ⟨m, n, account, rfl, rfl, hm, hn⟩ := hij
  exact Int.ofNat_inj.mpr (h.place_eq hm hn).symm

end Registry

/-- The transaction with other indices for the accounts. -/
def Transaction.renumber (σ : Equiv.Perm ℕ) (t : Transaction) : Transaction :=
  { t with sender := σ t.sender.toNat, recipient := σ t.recipient.toNat }

theorem eq_map_renumber {r r' : Registry} (h : r.Agrees r') {ts ts' : List Transaction}
    (hts : List.Forall₂ (Transaction.Matches Eq (r.Shares r')) ts ts') :
    ts' = ts.map (Transaction.renumber h.renumbering) := by
  induction hts with
  | nil => rfl
  | @cons t t' _ _ ht _ ih =>
    have hhead : t' = t.renumber h.renumbering := by
      cases t'
      simp only [Transaction.renumber, Transaction.mk.injEq]
      exact ⟨h.eq_renumbering ht.sender, h.eq_renumbering ht.recipient, ht.amount.symm,
        ht.date.symm, ht.note.symm, ht.role.symm⟩
    rw [List.map_cons, ← ih, ← hhead]

/-! ## Accounts before their use -/

/-- All account lines stand before all invoice lines and all payment lines. -/
def AccountsFirst (body : List (List Char)) : Prop :=
  body.Pairwise fun text later =>
    IsOfKind .account later → ¬ IsOfKind .invoice text ∧ ¬ IsOfKind .payment text

/-- The account lines are permuted among their places, and all other lines stay. -/
structure PermutesAccounts (body body' : List (List Char)) : Prop where
  places : List.Forall₂ (fun text text' =>
    text = text' ∨ IsOfKind .account text ∧ IsOfKind .account text') body body'
  accounts : (linesOf .account body).Perm (linesOf .account body')

/-- If all accounts come first, it is enough that an acronym is declared anywhere. -/
theorem AccountsFirst.declaresFirst_iff (h : AccountsFirst body) :
    DeclaresFirst body ↔ ∀ text ∈ body, ∀ line : Line, line.Spells text →
      ∀ acronym ∈ line.parties, Declared body acronym := by
  constructor
  · intro hfirst text htext line hline acronym hacronym
    obtain ⟨before, after, rfl⟩ := List.append_of_mem htext
    obtain ⟨text', htext', hspells⟩ := hfirst before text after rfl line hline acronym hacronym
    exact ⟨text', List.mem_append_left _ htext', hspells⟩
  · rintro hall before text after rfl line hline acronym hacronym
    obtain ⟨text', htext', name, hspells⟩ :=
      hall text (List.mem_append_right _ List.mem_cons_self) line hline acronym hacronym
    rcases List.mem_append.mp htext' with hbefore | hbehind
    · exact ⟨text', hbefore, name, hspells⟩
    · -- An account line behind a line that refers to accounts would come too late.
      have haccount : IsOfKind .account text' := (isOfKind_of_spells hspells).mpr rfl
      rcases List.mem_cons.mp hbehind with rfl | hafter
      · rw [hline.unique hspells] at hacronym
        exact absurd hacronym List.not_mem_nil
      · obtain ⟨-, hpair, -⟩ := List.pairwise_append.mp h
        obtain ⟨hinvoice, hpayment⟩ := (List.pairwise_cons.mp hpair).1 text' hafter haccount
        cases line with
        | invoice l => exact absurd ((isOfKind_of_spells hline).mpr rfl) hinvoice
        | payment l => exact absurd ((isOfKind_of_spells hline).mpr rfl) hpayment
        | _ => exact absurd hacronym List.not_mem_nil

namespace PermutesAccounts

/-- The kinds of the lines are the same in the same order. -/
theorem map_kind_eq (h : PermutesAccounts body body') :
    body.map (fun text => (Line.ofText? text).bind Line.kind?) =
      body'.map fun text => (Line.ofText? text).bind Line.kind? := by
  rw [← List.forall₂_eq_eq_eq, List.forall₂_map_left_iff, List.forall₂_map_right_iff]
  refine h.places.imp ?_
  rintro text text' (rfl | ⟨htext, htext'⟩)
  · rfl
  · exact htext.trans htext'.symm

theorem accountsFirst (h : PermutesAccounts body body') (hfirst : AccountsFirst body) :
    AccountsFirst body' := by
  have hkinds : (body.map fun text => (Line.ofText? text).bind Line.kind?).Pairwise
      fun kind later => later = some .account → ¬ kind = some .invoice ∧ ¬ kind = some .payment :=
    List.pairwise_map.mpr hfirst
  rw [h.map_kind_eq] at hkinds
  exact List.pairwise_map.mp hkinds

theorem declared_perm (h : PermutesAccounts body body') :
    (declared body).Perm (declared body') := by
  rw [← declared_linesOf body, ← declared_linesOf body']
  exact h.accounts.flatMap_right _

theorem mem_of_mem (h : PermutesAccounts body body') {text : List Char} (htext : text ∈ body') :
    text ∈ body := by
  by_cases haccount : IsOfKind .account text
  · have hmem : text ∈ linesOf .account body' := List.mem_filter.mpr ⟨htext, by simpa using haccount⟩
    exact (List.mem_filter.mp (h.accounts.mem_iff.mpr hmem)).1
  · obtain ⟨before, after, rfl⟩ := List.append_of_mem htext
    obtain ⟨before', text', after', rfl, -, rfl | ⟨-, htext'⟩⟩ := exists_append_of_forall₂ h.places
    · exact List.mem_append_right _ List.mem_cons_self
    · exact absurd htext' haccount

theorem linesMatch (h : PermutesAccounts body body') : LinesMatch Eq body body' := by
  refine h.places.imp ?_
  rintro text text' (rfl | ⟨htext, htext'⟩)
  · cases Line.ofText? text with
    | none => exact .none
    | some line => exact .some (.refl (fun _ => rfl) line)
  · unfold IsOfKind at htext htext'
    obtain ⟨line, hline, hkind⟩ := Option.bind_eq_some_iff.mp htext
    obtain ⟨line', hline', hkind'⟩ := Option.bind_eq_some_iff.mp htext'
    rw [hline, hline']
    cases line with
    | account acronym name =>
      cases line' with
      | account acronym' name' => exact .some (.account ..)
      | _ => cases hkind'
    | _ => cases hkind

/-- Permuted account lines are as acceptable as in their first order. -/
theorem allAcceptable (h : PermutesAccounts body body') (hfirst : AccountsFirst body)
    (hall : AllAcceptable options reference body) : AllAcceptable options reference body' := by
  obtain ⟨hsound, hdeclared, honce, henterable⟩ := allAcceptable_iff.mp hall
  have honce' : DeclaresOnce body' := (h.declared_perm.map _).nodup_iff.mp honce
  have hagrees : Registry.Agrees (accountsBehind body) (accountsBehind body') :=
    ⟨honce, honce', h.declared_perm⟩
  rw [hfirst.declaresFirst_iff] at hdeclared
  rw [allAcceptable_iff, (h.accountsFirst hfirst).declaresFirst_iff]
  refine ⟨fun text htext => hsound text (h.mem_of_mem htext), ?_, honce',
    (enterable_iff_of_linesMatch options reference .of_eq hagrees h.linesMatch).mp henterable⟩
  intro text htext line hline acronym hacronym
  have hold := hdeclared text (h.mem_of_mem htext) line hline acronym hacronym
  rw [declared_iff_mem] at hold ⊢
  exact (h.declared_perm.map _).mem_iff.mp hold

end PermutesAccounts

/-! ## Ledgers -/

namespace Ledger

/-- The second ledger is the first with its accounts in other places. -/
structure Renumbers (σ : Equiv.Perm ℕ) (l l' : Ledger) : Prop where
  referenceDate : l'.referenceDate = l.referenceDate
  accounts : ∀ i, l'.accounts.accounts[σ i]? = l.accounts.accounts[i]?
  invoices : l'.invoices = l.invoices.map (Transaction.renumber σ)
  payments : l'.payments = l.payments.map (Transaction.renumber σ)

/-- Every account has the same statement in both ledgers, with the same title and under the same
name of a file, or in neither for the same reason. -/
structure SameStatements (l l' : Ledger) (b b' : Balance) : Prop where
  titles : ∀ acronym, (Statement.ofAcronym l' b' acronym).map Report.title =
    (Statement.ofAcronym l b acronym).map Report.title
  fileNames : ∀ acronym, (Statement.ofAcronym l' b' acronym).map Report.fileName =
    (Statement.ofAcronym l b acronym).map Report.fileName
  texts : ∀ currency acronym, Report.statementOf l' b' currency acronym =
    Report.statementOf l b currency acronym

theorem sameStatements_of_matches {l l' : Ledger} (h : l.Matches Eq l') {b b' : Balance}
    (hb : b.Matches Eq (l.accounts.Shares l'.accounts) b') : SameStatements l l' b b' where
  titles acronym := ((Statement.related_ofAcronym .of_eq h hb acronym).map_eq
    fun _ _ hs => Report.title_eq hs).symm
  fileNames acronym := ((Statement.related_ofAcronym .of_eq h hb acronym).map_eq
    fun _ _ hs => Report.fileName_eq hs).symm
  texts currency acronym := (Report.statementOf_eq .of_eq h hb currency acronym).symm

/-- The order in which accounts are declared makes no difference but to their indices. If all
accounts of a ledger are declared before they are used, its account lines may be permuted: the
transactions are the same up to the indices, and so are all statements. If a sum is too large for
there to be any, so it is in both. -/
theorem ofString_permuted {options : Options} {text text' : String} {l : Ledger}
    (h : ofString options text = .ok l)
    (hheader : (splitLines text'.toList).1 = (splitLines text.toList).1)
    (hfirst : AccountsFirst (splitLines text.toList).2)
    (hbody : PermutesAccounts (splitLines text.toList).2 (splitLines text'.toList).2) :
    ∃ (l' : Ledger) (σ : Equiv.Perm ℕ), ofString options text' = .ok l' ∧ Renumbers σ l l' ∧
      (l.balance = .error .overflow ∧ l'.balance = .error .overflow ∨
        ∃ b b', l.balance = .ok b ∧ l'.balance = .ok b' ∧ SameStatements l l' b b') := by
  have hl := h
  rw [ofString_eq_ofLines] at hl
  obtain ⟨reference, hreference, hall, hwritten⟩ := ofLines_eq_ok_iff_written.mp hl
  have hl' : ofString options text' =
      .ok (written options reference (splitLines text'.toList).2) := by
    rw [ofString_eq_ofLines, hheader, ofLines_eq_ok_iff_written]
    exact ⟨reference, hreference, hbody.allAcceptable hfirst hall, rfl⟩
  have hdistinct := (wellFormed_of_ofString h).distinct
  rw [hwritten] at hdistinct
  have hagrees : Registry.Agrees ⟨declared (splitLines text.toList).2, true⟩
      ⟨declared (splitLines text'.toList).2, true⟩ :=
    ⟨hdistinct, (wellFormed_of_ofString hl').distinct, hbody.declared_perm⟩
  have hmatches := matches_written options reference .of_eq
    hbody.linesMatch hagrees
  rw [← hwritten] at hmatches
  refine ⟨_, hmatches.accounts.renumbering, hl', ⟨hmatches.referenceDate.symm,
    hmatches.accounts.getElem?_place, eq_map_renumber _ hmatches.invoices,
    eq_map_renumber _ hmatches.payments⟩, ?_⟩
  exact (hmatches.balance_cases .of_eq (wellFormed_of_ofString h)).imp_right
    fun ⟨b, b', hb, hb', hbalance⟩ => ⟨b, b', hb, hb', sameStatements_of_matches hmatches hbalance⟩

/-- A bill behind the lines of two accounts. -/
def pairText (first second : String) : String :=
  "accounting_date 1.2.2024\n" ++ first ++ "\n" ++ second ++ "\ninvoice AA -> BB 6.00 4.1.2024 T\n"

/-- The accounts change places, and the bill goes from the second to the first. -/
theorem ofString_permuted_pair : ∃ l l' σ b b',
    ofString {} (pairText "account AA A" "account BB B") = .ok l ∧
      ofString {} (pairText "account BB B" "account AA A") = .ok l' ∧ l'.invoices ≠ l.invoices ∧
      Renumbers σ l l' ∧ l.balance = .ok b ∧ l'.balance = .ok b' ∧ SameStatements l l' b b' := by
  have hread : (ofString {} (pairText "account AA A" "account BB B")).toOption.isSome = true ∧
      (ofString {} (pairText "account AA A" "account BB B")).toOption.map (·.invoices) ≠
        (ofString {} (pairText "account BB B" "account AA A")).toOption.map (·.invoices) ∧
      ((ofString {} (pairText "account AA A" "account BB B")).toOption.bind fun l =>
        l.balance.toOption).isSome = true := by
    decide +kernel
  have hlines :
      (splitLines (pairText "account BB B" "account AA A").toList).1 =
        (splitLines (pairText "account AA A" "account BB B").toList).1 ∧
      (splitLines (pairText "account AA A" "account BB B").toList).2 =
        ["account AA A".toList, "account BB B".toList,
          "invoice AA -> BB 6.00 4.1.2024 T".toList] ∧
      (splitLines (pairText "account BB B" "account AA A").toList).2 =
        ["account BB B".toList, "account AA A".toList,
          "invoice AA -> BB 6.00 4.1.2024 T".toList] := by
    decide +kernel
  obtain ⟨hheader, hbody, hbody'⟩ := hlines
  have hkinds : IsOfKind .account "account AA A".toList ∧
      IsOfKind .account "account BB B".toList ∧
      (linesOf .account (splitLines (pairText "account AA A" "account BB B").toList).2).Perm
        (linesOf .account (splitLines (pairText "account BB B" "account AA A").toList).2) := by
    decide +kernel
  obtain ⟨hfirst, hsecond, hperm⟩ := hkinds
  have haccounts : AccountsFirst (splitLines (pairText "account AA A" "account BB B").toList).2 := by
    rw [hbody, AccountsFirst]
    decide +kernel
  have hpermutes : PermutesAccounts
      (splitLines (pairText "account AA A" "account BB B").toList).2
      (splitLines (pairText "account BB B" "account AA A").toList).2 := by
    refine ⟨?_, hperm⟩
    rw [hbody, hbody']
    exact .cons (.inr ⟨hfirst, hsecond⟩) (.cons (.inr ⟨hsecond, hfirst⟩) (.cons (.inl rfl) .nil))
  obtain ⟨l, hl⟩ := Option.isSome_iff_exists.mp hread.1
  rw [toOption_eq_some] at hl
  obtain ⟨b, hb⟩ := Option.isSome_iff_exists.mp hread.2.2
  rw [hl] at hb
  obtain ⟨l', σ, hl', hrenumbers, ⟨hfault, -⟩ | ⟨c, b', hc, hb', htold⟩⟩ :=
    ofString_permuted hl hheader haccounts hpermutes
  · exact nomatch (toOption_eq_some.mp hb).symm.trans hfault
  · refine ⟨l, l', σ, c, b', hl, hl', fun hsame => ?_, hrenumbers, hc, hb', htold⟩
    exact hread.2.1 (by rw [hl, hl']; exact congrArg some hsame.symm)

end Ledger

end HouseLedger
