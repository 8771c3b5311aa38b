import HouseLedger.Balance
import HouseLedger.Proofs.Outcome
import Mathlib.Data.Sym.Sym2
import Mathlib.Data.List.Nodup
import Mathlib.Tactic

/-!
# The store of a balance

A balance stores one entry for each unordered pair of accounts
(`Balance.WellFormed`). Booking an amount between two accounts has three cases
(`Balance.apply_cases`): the pair is stored in this orientation, in the other one,
or not at all. In each of them the store stays well formed
(`Balance.WellFormed.of_apply`), and no entry of another pair changes. Transactions are booked
one after the other (`Balance.addAll_cons`), up to the first that cannot be.
-/

namespace HouseLedger

/-- The accounts of an entry, regardless of the orientation. -/
def Entry.pair (e : Entry) : Sym2 ℤ := s(e.sender, e.recipient)

/-- The accounts of an entry in its orientation. -/
def Entry.direction (e : Entry) : ℤ × ℤ := (e.sender, e.recipient)

/-- The accounts of a transaction, regardless of its direction. -/
def Transaction.pair (t : Transaction) : Sym2 ℤ := s(t.sender, t.recipient)

theorem Entry.joins_iff (e : Entry) (sender recipient : ℤ) :
    e.joins sender recipient = true ↔ e.sender = sender ∧ e.recipient = recipient := by
  simp [Entry.joins]

theorem Entry.pair_eq_iff (e : Entry) (i j : ℤ) :
    e.pair = s(i, j) ↔ e.sender = i ∧ e.recipient = j ∨ e.sender = j ∧ e.recipient = i :=
  Sym2.eq_iff

theorem Entry.pair_of_direction {e e' : Entry} (h : e.direction = e'.direction) :
    e.pair = e'.pair :=
  congrArg (fun d : ℤ × ℤ => s(d.1, d.2)) h

theorem Transaction.pair_eq_iff (t : Transaction) (i j : ℤ) :
    t.pair = s(i, j) ↔ t.sender = i ∧ t.recipient = j ∨ t.sender = j ∧ t.recipient = i :=
  Sym2.eq_iff

namespace Balance

/-- Every pair of accounts is stored at most once, and no account with itself. -/
structure WellFormed (b : Balance) : Prop where
  nodup : (b.entries.map Entry.pair).Nodup
  proper : ∀ e ∈ b.entries, e.sender ≠ e.recipient

theorem WellFormed.empty : empty.WellFormed := ⟨by simp [Balance.empty], by simp [Balance.empty]⟩

/-! ## Finding entries -/

/-- An entry of a well-formed balance is the only one of its pair. -/
theorem WellFormed.eq_of_pair_eq {b : Balance} (wf : b.WellFormed) {e₁ e₂ : Entry}
    (h₁ : e₁ ∈ b.entries) (h₂ : e₂ ∈ b.entries) (h : e₁.pair = e₂.pair) : e₁ = e₂ :=
  List.inj_on_of_nodup_map wf.nodup h₁ h₂ h

theorem mem_of_find? {b : Balance} {i j : ℤ} {e : Entry} (h : b.find? i j = some e) :
    e ∈ b.entries ∧ e.sender = i ∧ e.recipient = j := by
  have hjoin := List.find?_some h
  exact ⟨List.mem_of_find?_eq_some h, (e.joins_iff i j).mp hjoin⟩

theorem find?_eq_none_iff {b : Balance} {i j : ℤ} :
    b.find? i j = none ↔ ∀ e ∈ b.entries, ¬ (e.sender = i ∧ e.recipient = j) := by
  simp only [find?, List.find?_eq_none, Entry.joins_iff]

theorem WellFormed.find?_eq_some_iff {b : Balance} (wf : b.WellFormed) {i j : ℤ} {e : Entry} :
    b.find? i j = some e ↔ e ∈ b.entries ∧ e.sender = i ∧ e.recipient = j := by
  constructor
  · exact mem_of_find?
  · rintro ⟨hmem, hi, hj⟩
    cases hfind : b.find? i j with
    | none => exact absurd ⟨hi, hj⟩ (find?_eq_none_iff.mp hfind e hmem)
    | some e' =>
      obtain ⟨hmem', hi', hj'⟩ := mem_of_find? hfind
      rw [wf.eq_of_pair_eq hmem hmem' (by rw [Entry.pair, Entry.pair, hi, hj, hi', hj'])]

/-! ## Replacing an entry -/

/-- An entry that is put in the place of another one has the same orientation. -/
theorem map_direction_replace (b : Balance) (x : Entry) :
    (b.replace x).entries.map Entry.direction = b.entries.map Entry.direction := by
  rw [replace, List.map_map]
  refine List.map_congr_left fun e _ => ?_
  by_cases h : e.joins x.sender x.recipient = true
  · obtain ⟨hs, hr⟩ := (e.joins_iff _ _).mp h
    simp [h, Entry.direction, hs, hr]
  · simp [h]

theorem map_pair_eq (es : List Entry) :
    es.map Entry.pair = (es.map Entry.direction).map fun d => s(d.1, d.2) := by
  rw [List.map_map]
  rfl

theorem map_pair_replace (b : Balance) (x : Entry) :
    (b.replace x).entries.map Entry.pair = b.entries.map Entry.pair := by
  rw [map_pair_eq, map_direction_replace, ← map_pair_eq]

theorem mem_replace {b : Balance} {x e : Entry} (h : e ∈ (b.replace x).entries) :
    e = x ∨ e ∈ b.entries ∧ ¬ (e.sender = x.sender ∧ e.recipient = x.recipient) := by
  rw [replace, List.mem_map] at h
  obtain ⟨y, hy, rfl⟩ := h
  by_cases hjoin : y.joins x.sender x.recipient = true
  · exact .inl (by simp [hjoin])
  · have hne := mt (y.joins_iff x.sender x.recipient).mpr hjoin
    exact .inr ⟨by simpa [hjoin] using hy, by simpa [hjoin] using hne⟩

theorem WellFormed.replace {b : Balance} (wf : b.WellFormed) {x : Entry}
    (hx : x.sender ≠ x.recipient) : (b.replace x).WellFormed := by
  constructor
  · rw [map_pair_replace]
    exact wf.nodup
  · intro e he
    rcases mem_replace he with rfl | ⟨hmem, -⟩
    · exact hx
    · exact wf.proper e hmem

/-! ## Booking -/

/-- What booking an amount between two accounts does. Where there is an entry, the new balance has
to be computed. -/
theorem apply_cases (b : Balance) {i j : ℤ} (hne : i ≠ j) (amount : Decimal) :
    (∃ e, b.find? i j = some e ∧
      b.apply i j amount = (e.balance + amount).checked.map fun total =>
        ({ e with balance := total }, b.replace { e with balance := total })) ∨
    (∃ e, b.find? i j = none ∧ b.find? j i = some e ∧
      b.apply i j amount = (e.balance - amount).checked.map fun total =>
        ({ e with balance := total }, b.replace { e with balance := total })) ∨
    (b.find? i j = none ∧ b.find? j i = none ∧
      b.apply i j amount = .ok (⟨i, j, amount⟩, ⟨b.entries ++ [⟨i, j, amount⟩]⟩)) := by
  cases hsame : b.find? i j with
  | some e => exact .inl ⟨e, rfl, by rw [apply, hsame]; rfl⟩
  | none =>
    cases hreversed : b.find? j i with
    | some e => exact .inr (.inl ⟨e, rfl, rfl, by rw [apply, hsame, hreversed]; rfl⟩)
    | none =>
      refine .inr (.inr ⟨rfl, rfl, ?_⟩)
      rw [apply, hsame, hreversed]
      simp [Entry.create, hne, Outcome.bind_ok, Outcome.pure_eq]

/-- A pair that is stored in neither orientation is not stored. -/
theorem pair_notMem_of_find? {b : Balance} {i j : ℤ} (hij : b.find? i j = none)
    (hji : b.find? j i = none) : s(i, j) ∉ b.entries.map Entry.pair := by
  rw [List.mem_map]
  rintro ⟨e, he, hpair⟩
  rcases (e.pair_eq_iff i j).mp hpair with h | h
  · exact find?_eq_none_iff.mp hij e he h
  · exact find?_eq_none_iff.mp hji e he h

theorem WellFormed.append {b : Balance} (wf : b.WellFormed) {x : Entry}
    (hx : x.sender ≠ x.recipient) (hnew : x.pair ∉ b.entries.map Entry.pair) :
    WellFormed ⟨b.entries ++ [x]⟩ := by
  constructor
  · rw [List.map_append, List.nodup_append_comm]
    exact List.nodup_cons.mpr ⟨hnew, wf.nodup⟩
  · intro e he
    rcases List.mem_append.mp he with he | he
    · exact wf.proper e he
    · rw [List.mem_singleton.mp he]
      exact hx

/-- Booking keeps a balance well formed. -/
theorem WellFormed.of_apply {b b' : Balance} (wf : b.WellFormed) {i j : ℤ} (hne : i ≠ j)
    {amount : Decimal} {e : Entry} (h : b.apply i j amount = .ok (e, b')) : b'.WellFormed := by
  rcases b.apply_cases hne amount with ⟨x, hx, heq⟩ | ⟨x, -, hx, heq⟩ | ⟨hij, hji, heq⟩
  · obtain ⟨total, -, hr⟩ := Outcome.map_eq_ok.mp (heq.symm.trans h)
    cases hr
    exact wf.replace (wf.proper x (mem_of_find? hx).1)
  · obtain ⟨total, -, hr⟩ := Outcome.map_eq_ok.mp (heq.symm.trans h)
    cases hr
    exact wf.replace (wf.proper x (mem_of_find? hx).1)
  · cases heq.symm.trans h
    exact wf.append hne (pair_notMem_of_find? hij hji)

/-! ## Runs -/

theorem addAll_cons (b : Balance) (t : Transaction) (ts : List Transaction) :
    b.addAll (t :: ts) = b.add t >>= fun r => r.2.addAll ts := by
  rw [addAll, addUpTo]
  cases b.add t with
  | error fault => rfl
  | ok r => rfl

end Balance

end HouseLedger
