import HouseLedger.Proofs.Balance.Running

/-!
# The history of a balance

A `Booking` is a call that books something on a balance, and `Balance.history` is the balance
behind a row of such calls on a new one. A call fails if it is between an account and itself, or
if it has to compute what is too large, and then it leaves the balance as it was. So behind every
row of calls (`Balance.history_stores`):

1. the entries are the pairs of the calls that did not fail (`Balance.succeeded`), in the order in
   which the pairs came first and each in the direction of that first time (`firstDirections`);
2. what the balance answers is what it stores (`Balance.Answers`);
3. the next call changes the entry of its own pair and no other (`Balance.Books`).

The step behind all three is `Balance.run_cases`: a call between two accounts that does not fail
either puts an entry in the place of the one of its pair or adds one at the end.
-/

namespace HouseLedger

/-! ## Calls -/

/-- A call that books something on a balance. -/
inductive Booking where
  /-- An amount, seen from the sender to the recipient. -/
  | amount (sender recipient : ℤ) (value : Decimal)
  /-- A transaction, whose role gives the sign. -/
  | transaction (t : Transaction)
  deriving DecidableEq

namespace Booking

/-- From which account to which account the call books. -/
def direction : Booking → ℤ × ℤ
  | amount sender recipient _ => (sender, recipient)
  | transaction t => (t.sender, t.recipient)

/-- What the call books, seen in its direction; of an invoice it is computed first. -/
def value : Booking → Except Fault Decimal
  | amount _ _ value => .ok value
  | transaction t => t.signedAmount

/-- The accounts of the call, regardless of its direction. -/
def pair (c : Booking) : Sym2 ℤ := s(c.direction.1, c.direction.2)

/-- The call carried out: the entry that results, and the balance with it. -/
def run (c : Booking) (b : Balance) : Except Fault (Entry × Balance) :=
  match c with
  | amount sender recipient value => b.apply sender recipient value
  | transaction t => b.add t

theorem run_eq (c : Booking) (b : Balance) :
    c.run b = c.value >>= b.apply c.direction.1 c.direction.2 := by
  cases c with
  | amount sender recipient value => rfl
  | transaction t => rfl

end Booking

/-! ## First directions -/

/-- For each pair of accounts the direction in which it comes first, in the order of these
places. -/
def firstDirections : List (ℤ × ℤ) → List (ℤ × ℤ)
  | [] => []
  | d :: ds => d :: (firstDirections ds).filter fun d' => s(d'.1, d'.2) ≠ s(d.1, d.2)

theorem mem_map_firstDirections (ds : List (ℤ × ℤ)) (p : Sym2 ℤ) :
    p ∈ (firstDirections ds).map (fun d => s(d.1, d.2)) ↔ p ∈ ds.map fun d => s(d.1, d.2) := by
  induction ds with
  | nil => rfl
  | cons d ds ih =>
    have hrest : p ∈ ((firstDirections ds).filter fun d' => s(d'.1, d'.2) ≠ s(d.1, d.2)).map
        (fun d => s(d.1, d.2)) ↔
        p ∈ (firstDirections ds).map (fun d => s(d.1, d.2)) ∧ p ≠ s(d.1, d.2) := by
      simp only [List.mem_map, List.mem_filter, decide_eq_true_iff]
      constructor
      · rintro ⟨d', ⟨hd', hne⟩, rfl⟩
        exact ⟨⟨d', hd', rfl⟩, hne⟩
      · rintro ⟨⟨d', hd', rfl⟩, hne⟩
        exact ⟨d', ⟨hd', hne⟩, rfl⟩
    rw [firstDirections, List.map_cons, List.mem_cons, hrest, ih, List.map_cons, List.mem_cons]
    tauto

/-- One more direction is a first one unless its pair came before. -/
theorem firstDirections_concat (ds : List (ℤ × ℤ)) (d : ℤ × ℤ) :
    firstDirections (ds ++ [d]) =
      if s(d.1, d.2) ∈ ds.map (fun d => s(d.1, d.2)) then firstDirections ds
      else firstDirections ds ++ [d] := by
  induction ds with
  | nil => rfl
  | cons first ds ih =>
    rw [List.cons_append, firstDirections, ih, List.map_cons, firstDirections]
    by_cases hseen : s(d.1, d.2) ∈ ds.map fun d => s(d.1, d.2)
    · rw [if_pos hseen, if_pos (List.mem_cons_of_mem _ hseen)]
    · rw [if_neg hseen, List.filter_append]
      by_cases hfirst : s(d.1, d.2) = s(first.1, first.2)
      · rw [if_pos (List.mem_cons.mpr (.inl hfirst)), List.filter_singleton]
        simp [hfirst]
      · rw [if_neg (fun h => (List.mem_cons.mp h).elim hfirst hseen), List.filter_singleton]
        simp [hfirst]

namespace Balance

/-- The balance behind a call; one that fails leaves it as it was. -/
def after (b : Balance) (c : Booking) : Balance :=
  match c.run b with
  | .ok (_, b') => b'
  | .error _ => b

/-- The balance behind calls that are made one after the other on a new one. -/
def history (cs : List Booking) : Balance := cs.foldl after empty

theorem history_concat (cs : List Booking) (c : Booking) :
    history (cs ++ [c]) = (history cs).after c := by
  rw [history, List.foldl_append]
  rfl

/-- Of calls that are made one after the other on a balance those that do not fail. -/
def succeeded (b : Balance) : List Booking → List Booking
  | [] => []
  | c :: cs => if (c.run b).toBool then c :: succeeded (b.after c) cs else succeeded (b.after c) cs

theorem succeeded_concat (b : Balance) (cs : List Booking) (c : Booking) :
    succeeded b (cs ++ [c]) =
      if (c.run (cs.foldl after b)).toBool then succeeded b cs ++ [c] else succeeded b cs := by
  induction cs generalizing b with
  | nil => rfl
  | cons d cs ih =>
    rw [List.cons_append, succeeded, ih, succeeded, List.foldl_cons]
    split <;> split <;> rfl

/-! ## Answers -/

/-- A balance answers what it stores: for two accounts their one entry, in whichever order they
are named, and its balance or the opposite of it, unless that is too large; for one account the
entries that it takes part in. -/
structure Answers (b : Balance) : Prop where
  get?_eq_some_iff : ∀ i j e, b.get? i j = some e ↔ e ∈ b.entries ∧ e.pair = s(i, j)
  get?_comm : ∀ i j, b.get? i j = b.get? j i
  net_stored : ∀ e ∈ b.entries, b.net e.sender e.recipient = .ok e.balance
  net_turned : ∀ e ∈ b.entries, b.net e.recipient e.sender = (-e.balance).checked
  net_unseen : ∀ i j, s(i, j) ∉ b.entries.map Entry.pair → b.net i j = .ok .zero
  entriesFor_eq : ∀ i, b.entriesFor i = b.entries.filter fun e => i = e.sender ∨ i = e.recipient

variable {b b' : Balance} {c : Booking}

theorem pair_of_get? {i j : ℤ} {e : Entry} (h : b.get? i j = some e) : e.pair = s(i, j) := by
  rcases Option.or_eq_some_iff.mp h with hfind | ⟨-, hfind⟩
  · exact (e.pair_eq_iff i j).mpr (.inl (mem_of_find? hfind).2)
  · exact (e.pair_eq_iff i j).mpr (.inr (mem_of_find? hfind).2)

theorem find?_eq_none_of_unseen {i j : ℤ} (h : s(i, j) ∉ b.entries.map Entry.pair) :
    b.find? i j = none :=
  find?_eq_none_iff.mpr fun e he hjoin =>
    h (List.mem_map.mpr ⟨e, he, (e.pair_eq_iff i j).mpr (.inl hjoin)⟩)

/-- An entry is not stored in the other direction as well. -/
theorem WellFormed.find?_turned (wf : b.WellFormed) {e : Entry} (he : e ∈ b.entries) :
    b.find? e.recipient e.sender = none := by
  rw [find?_eq_none_iff]
  rintro x hx ⟨hs, hr⟩
  have hpair : x.pair = e.pair := (x.pair_eq_iff _ _).mpr (.inr ⟨hs, hr⟩)
  obtain rfl := wf.eq_of_pair_eq hx he hpair
  exact wf.proper x hx hs

theorem WellFormed.get?_eq_some_iff (wf : b.WellFormed) {i j : ℤ} {e : Entry} :
    b.get? i j = some e ↔ e ∈ b.entries ∧ e.pair = s(i, j) := by
  rw [get?, Option.or_eq_some_iff, wf.find?_eq_some_iff, wf.find?_eq_some_iff, Entry.pair_eq_iff]
  constructor
  · rintro (⟨he, hij⟩ | ⟨-, he, hji⟩)
    · exact ⟨he, .inl hij⟩
    · exact ⟨he, .inr hji⟩
  · rintro ⟨he, hij | ⟨rfl, rfl⟩⟩
    · exact .inl ⟨he, hij⟩
    · exact .inr ⟨wf.find?_turned he, he, rfl, rfl⟩

theorem WellFormed.answers (wf : b.WellFormed) : b.Answers where
  get?_eq_some_iff _ _ _ := wf.get?_eq_some_iff
  get?_comm i j := by
    ext e
    rw [wf.get?_eq_some_iff, wf.get?_eq_some_iff, Sym2.eq_swap]
  net_stored e he := by rw [net, wf.find?_eq_some_iff.mpr ⟨he, rfl, rfl⟩]
  net_turned e he := by
    rw [net, wf.find?_turned he, wf.find?_eq_some_iff.mpr ⟨he, rfl, rfl⟩]
  net_unseen i j h := by
    have hturned : s(j, i) ∉ b.entries.map Entry.pair := by rwa [Sym2.eq_swap]
    rw [net, find?_eq_none_of_unseen h, find?_eq_none_of_unseen hturned]
  entriesFor_eq i := by
    refine List.filter_congr fun e _ => ?_
    rw [Entry.involves, Bool.decide_or]
    rfl

/-! ## One call -/

/-- The entry that a call between two accounts leaves: the one of its pair with the value added,
or taken if the entry is seen from the other side, and a new one if there is none. -/
def booked (b : Balance) (c : Booking) : Except Fault Entry := do
  let value ← c.value
  match b.get? c.direction.1 c.direction.2 with
  | some e =>
    let total ←
      (if e.direction = c.direction then e.balance + value else e.balance - value).checked
    return { e with balance := total }
  | none => return ⟨c.direction.1, c.direction.2, value⟩

/-- What a call may do to a balance. -/
structure Books (b : Balance) (c : Booking) : Prop where
  /-- Between an account and itself it fails, for this reason if its value can be computed. -/
  same : c.direction.1 = c.direction.2 →
    (∀ value, c.value = .ok value → c.run b = .error (.sameAccounts c.direction.1)) ∧
      ∃ fault, c.run b = .error fault
  /-- Between two accounts it does not, unless a number is too large, and the entry that it leaves
  is found. -/
  proper : c.direction.1 ≠ c.direction.2 →
    c.run b = (b.booked c).map (fun e => (e, b.after c)) ∧
      Outcome.FailsOnly .overflow (b.booked c) ∧
      ∀ e, b.booked c = .ok e → (b.after c).get? c.direction.1 c.direction.2 = some e
  /-- One that fails leaves the balance as it was. -/
  failed : ∀ fault, c.run b = .error fault → b.after c = b
  /-- The entries of all other pairs stay as they are and where they are. -/
  others : ∀ (k : ℕ) (e : Entry), e.pair ≠ c.pair →
    ((b.after c).entries[k]? = some e ↔ b.entries[k]? = some e)

/-- All that can go wrong in computing the entry is that a number is too large. -/
theorem failsOnly_booked (b : Balance) (c : Booking) :
    Outcome.FailsOnly .overflow (b.booked c) := by
  refine Outcome.FailsOnly.bind ?_ fun value _ => ?_
  · cases c with
    | amount sender recipient value => exact .ok value
    | transaction t => exact (failsIff_signedAmount t).failsOnly
  · split
    · exact (Decimal.failsIff_checked _).failsOnly.bind fun _ _ => .ok _
    · exact .ok _

theorem after_of_ok {e : Entry} (h : c.run b = .ok (e, b')) : b.after c = b' := by
  rw [after, h]

theorem after_of_error {fault : Fault} (h : c.run b = .error fault) : b.after c = b := by
  rw [after, h]

theorem WellFormed.apply_same (wf : b.WellFormed) (i : ℤ) (value : Decimal) :
    b.apply i i value = .error (.sameAccounts i) := by
  have hnone : b.find? i i = none :=
    find?_eq_none_iff.mpr fun e he hjoin => wf.proper e he (hjoin.1.trans hjoin.2.symm)
  rw [apply, hnone]
  simp [Entry.create, bind, Except.bind]

/-- What a call does that can compute its value. -/
theorem run_of_value {value : Decimal} (h : c.value = .ok value) :
    c.run b = b.apply c.direction.1 c.direction.2 value := by
  rw [c.run_eq, h]
  rfl

theorem WellFormed.run_of_same (wf : b.WellFormed) (h : c.direction.1 = c.direction.2)
    {value : Decimal} (hvalue : c.value = .ok value) :
    c.run b = .error (.sameAccounts c.direction.1) := by
  rw [run_of_value hvalue, ← h]
  exact wf.apply_same _ value

/-- The entry that is left is the one that was there, with another balance. -/
theorem booked_of_get? {e : Entry} {value : Decimal}
    (hget : b.get? c.direction.1 c.direction.2 = some e) (hvalue : c.value = .ok value) :
    b.booked c = (if e.direction = c.direction then e.balance + value
      else e.balance - value).checked.map fun total => { e with balance := total } := by
  rw [booked, hvalue]
  simp only [Outcome.bind_ok, hget]
  rfl

/-- Without an entry there, the value opens one. -/
theorem booked_of_get?_eq_none {value : Decimal}
    (hget : b.get? c.direction.1 c.direction.2 = none) (hvalue : c.value = .ok value) :
    b.booked c = .ok ⟨c.direction.1, c.direction.2, value⟩ := by
  rw [booked, hvalue]
  simp only [Outcome.bind_ok, hget]
  rfl

/-- A call between two accounts puts the entry that it leaves in the place of the one of its
pair, or at the end if there is none. -/
theorem run_cases (b : Balance) (h : c.direction.1 ≠ c.direction.2) :
    (∃ e, b.get? c.direction.1 c.direction.2 = some e ∧
      (∀ x, b.booked c = .ok x → x.direction = e.direction) ∧
      c.run b = (b.booked c).map fun x => (x, b.replace x)) ∨
    (b.get? c.direction.1 c.direction.2 = none ∧
      (∀ x, b.booked c = .ok x → x.direction = c.direction) ∧
      c.run b = (b.booked c).map fun x => (x, ⟨b.entries ++ [x]⟩)) := by
  cases hvalue : c.value with
  | error fault =>
    have hbooked : b.booked c = .error fault := by
      rw [booked, hvalue]
      rfl
    have hnone {d : ℤ × ℤ} (x : Entry) (hx : b.booked c = .ok x) : x.direction = d :=
      nomatch hbooked.symm.trans hx
    have hrun : c.run b = .error fault := by
      rw [c.run_eq, hvalue]
      rfl
    cases hget : b.get? c.direction.1 c.direction.2 with
    | some e => exact .inl ⟨e, rfl, hnone, by rw [hrun, hbooked]; rfl⟩
    | none => exact .inr ⟨rfl, hnone, by rw [hrun, hbooked]; rfl⟩
  | ok value =>
    rw [run_of_value hvalue]
    have hdirection {e : Entry} (hget : b.get? c.direction.1 c.direction.2 = some e) (x : Entry)
        (hx : b.booked c = .ok x) : x.direction = e.direction := by
      rw [booked_of_get? hget hvalue, Outcome.map_eq_ok] at hx
      obtain ⟨total, -, rfl⟩ := hx
      rfl
    rcases b.apply_cases h value with ⟨e, hfind, hrun⟩ | ⟨e, hnone, hfind, hrun⟩ |
      ⟨hnone, hnone', hrun⟩
    · have hget : b.get? c.direction.1 c.direction.2 = some e := by
        rw [get?, hfind, Option.some_or]
      have hsame : e.direction = c.direction := Prod.ext_iff.mpr (mem_of_find? hfind).2
      refine .inl ⟨e, hget, hdirection hget, ?_⟩
      rw [hrun, booked_of_get? hget hvalue, if_pos hsame, Outcome.map_map]
    · have hget : b.get? c.direction.1 c.direction.2 = some e := by
        rw [get?, hnone, hfind, Option.none_or]
      have hturned : e.direction ≠ c.direction := by
        intro heq
        exact h ((congrArg Prod.fst heq).symm.trans (mem_of_find? hfind).2.1)
      refine .inl ⟨e, hget, hdirection hget, ?_⟩
      rw [hrun, booked_of_get? hget hvalue, if_neg hturned, Outcome.map_map]
    · have hget : b.get? c.direction.1 c.direction.2 = none := by
        rw [get?, hnone, hnone', Option.none_or]
      have hbooked := booked_of_get?_eq_none hget hvalue
      refine .inr ⟨hget, fun x hx => Outcome.ok_unique hx hbooked ▸ rfl, ?_⟩
      rw [hrun, hbooked]
      rfl

/-- A call that does not fail is one between two accounts. -/
theorem WellFormed.proper_of_run (wf : b.WellFormed) {r : Entry × Balance} (h : c.run b = .ok r) :
    c.direction.1 ≠ c.direction.2 := by
  intro hsame
  obtain ⟨value, hvalue, -⟩ := Outcome.bind_eq_ok.mp ((c.run_eq b).symm.trans h)
  exact nomatch h.symm.trans (wf.run_of_same hsame hvalue)

/-- What a call that does not fail has done. -/
theorem WellFormed.cases_of_run (wf : b.WellFormed) {x : Entry} (h : c.run b = .ok (x, b')) :
    b.booked c = .ok x ∧ x.pair = c.pair ∧
      ((∃ e, b.get? c.direction.1 c.direction.2 = some e ∧ x.direction = e.direction ∧
          b' = b.replace x) ∨
        (b.get? c.direction.1 c.direction.2 = none ∧ x.direction = c.direction ∧
          b' = ⟨b.entries ++ [x]⟩)) := by
  rcases b.run_cases (wf.proper_of_run h) with ⟨e, hget, hdirection, hrun⟩ |
    ⟨hget, hdirection, hrun⟩
  · obtain ⟨y, hy, heq⟩ := Outcome.map_eq_ok.mp (hrun.symm.trans h)
    obtain ⟨rfl, rfl⟩ := Prod.mk.inj heq
    have hsame := hdirection y hy
    exact ⟨hy, (Entry.pair_of_direction hsame).trans (pair_of_get? hget),
      .inl ⟨e, hget, hsame, rfl⟩⟩
  · obtain ⟨y, hy, heq⟩ := Outcome.map_eq_ok.mp (hrun.symm.trans h)
    obtain ⟨rfl, rfl⟩ := Prod.mk.inj heq
    have hsame := hdirection y hy
    exact ⟨hy, congrArg (fun d : ℤ × ℤ => s(d.1, d.2)) hsame, .inr ⟨hget, hsame, rfl⟩⟩

theorem WellFormed.after (wf : b.WellFormed) (c : Booking) : (b.after c).WellFormed := by
  cases hrun : c.run b with
  | error fault => rwa [after_of_error hrun]
  | ok r =>
    obtain ⟨value, -, happly⟩ := Outcome.bind_eq_ok.mp ((c.run_eq b).symm.trans hrun)
    rw [after_of_ok hrun]
    exact wf.of_apply (wf.proper_of_run hrun) happly

/-- A call that does not fail adds its direction, unless its pair is stored. -/
theorem WellFormed.map_direction_after (wf : b.WellFormed) {x : Entry}
    (h : c.run b = .ok (x, b')) :
    b'.entries.map Entry.direction =
      if c.pair ∈ b.entries.map Entry.pair then b.entries.map Entry.direction
      else b.entries.map Entry.direction ++ [c.direction] := by
  obtain ⟨-, -, ⟨e, hget, -, rfl⟩ | ⟨hget, hdirection, rfl⟩⟩ := wf.cases_of_run h
  · have hseen : c.pair ∈ b.entries.map Entry.pair :=
      List.mem_map.mpr ⟨e, wf.get?_eq_some_iff.mp hget⟩
    rw [map_direction_replace, if_pos hseen]
  · have hunseen : c.pair ∉ b.entries.map Entry.pair := by
      rintro hmem
      obtain ⟨e, he, hpair⟩ := List.mem_map.mp hmem
      exact nomatch hget.symm.trans (wf.get?_eq_some_iff.mpr ⟨he, hpair⟩)
    rw [if_neg hunseen, List.map_append, List.map_singleton, hdirection]

theorem mem_replace_self {e x : Entry} (he : e ∈ b.entries) (h : x.direction = e.direction) :
    x ∈ (b.replace x).entries := by
  obtain ⟨hs, hr⟩ := Prod.ext_iff.mp h
  exact List.mem_map.mpr ⟨e, he, if_pos ((e.joins_iff _ _).mpr ⟨hs.symm, hr.symm⟩)⟩

/-- Putting an entry in the place of one leaves the entries of other pairs where they are. -/
theorem getElem?_replace_iff {e x : Entry} (hne : e.pair ≠ x.pair) (k : ℕ) :
    (b.replace x).entries[k]? = some e ↔ b.entries[k]? = some e := by
  rw [replace, List.getElem?_map, Option.map_eq_some_iff]
  constructor
  · rintro ⟨y, hy, hyx⟩
    split at hyx
    · exact absurd (congrArg Entry.pair hyx).symm hne
    · rwa [← hyx]
  · intro hk
    refine ⟨e, hk, if_neg fun hjoin => hne ?_⟩
    obtain ⟨hs, hr⟩ := (e.joins_iff _ _).mp hjoin
    exact (e.pair_eq_iff _ _).mpr (.inl ⟨hs, hr⟩)

theorem getElem?_concat_iff {es : List Entry} {e x : Entry} (hne : e ≠ x) (k : ℕ) :
    (es ++ [x])[k]? = some e ↔ es[k]? = some e := by
  rcases lt_trichotomy k es.length with hk | rfl | hk
  · rw [List.getElem?_append_left hk]
  · simp [hne.symm]
  · rw [List.getElem?_eq_none_iff.mpr (by simp; omega), List.getElem?_eq_none_iff.mpr hk.le]

/-- The entry that a call leaves is stored. -/
theorem WellFormed.get?_of_run (wf : b.WellFormed) {x : Entry} (h : c.run b = .ok (x, b')) :
    b'.get? c.direction.1 c.direction.2 = some x := by
  obtain ⟨-, hpair, hcases⟩ := wf.cases_of_run h
  have wf' := after_of_ok h ▸ wf.after c
  refine wf'.get?_eq_some_iff.mpr ⟨?_, hpair⟩
  rcases hcases with ⟨e, hget, hdirection, rfl⟩ | ⟨-, -, rfl⟩
  · exact mem_replace_self (wf.get?_eq_some_iff.mp hget).1 hdirection
  · exact List.mem_append_right _ List.mem_cons_self

theorem WellFormed.getElem?_of_run (wf : b.WellFormed) {x e : Entry} (h : c.run b = .ok (x, b'))
    (hne : e.pair ≠ c.pair) (k : ℕ) : b'.entries[k]? = some e ↔ b.entries[k]? = some e := by
  obtain ⟨-, hpair, ⟨y, -, -, rfl⟩ | ⟨-, -, rfl⟩⟩ := wf.cases_of_run h
  · exact getElem?_replace_iff (hpair ▸ hne) k
  · exact getElem?_concat_iff (mt (congrArg Entry.pair) (hpair ▸ hne)) k

theorem WellFormed.books (wf : b.WellFormed) (c : Booking) : b.Books c where
  same h := by
    refine ⟨fun value hvalue => wf.run_of_same h hvalue, ?_⟩
    cases hrun : c.run b with
    | error fault => exact ⟨fault, rfl⟩
    | ok r => exact absurd h (wf.proper_of_run hrun)
  proper h := by
    have heq : c.run b = (b.booked c).map fun e => (e, b.after c) := by
      rcases b.run_cases h with ⟨-, -, -, hrun⟩ | ⟨-, -, hrun⟩
      all_goals
        cases hbooked : b.booked c with
        | error fault => rw [hrun, hbooked]; rfl
        | ok x =>
          rw [hbooked] at hrun
          rw [hrun, after_of_ok hrun]
          rfl
    refine ⟨heq, b.failsOnly_booked c, fun e he => wf.get?_of_run (x := e) ?_⟩
    rw [heq, he]
    rfl
  failed _ := after_of_error
  others k e hne := by
    cases hrun : c.run b with
    | error fault => rw [after_of_error hrun]
    | ok r =>
      rw [after_of_ok hrun]
      exact wf.getElem?_of_run hrun hne k

/-! ## All calls -/

theorem WellFormed.history (cs : List Booking) : (history cs).WellFormed := by
  induction cs using List.reverseRecOn with
  | nil => exact .empty
  | append_singleton cs c ih =>
    rw [history_concat]
    exact ih.after c

/-- The entries stand in the order of the first calls of their pairs that did not fail, and in
their directions. -/
theorem map_direction_history (cs : List Booking) :
    (history cs).entries.map Entry.direction =
      firstDirections ((succeeded empty cs).map Booking.direction) := by
  induction cs using List.reverseRecOn with
  | nil => rfl
  | append_singleton cs c ih =>
    rw [history_concat, succeeded_concat, ← history]
    cases hrun : c.run (history cs) with
    | error fault =>
      simp only [Except.toBool, Bool.false_eq_true, if_false]
      rw [after_of_error hrun, ih]
    | ok r =>
      simp only [Except.toBool, if_true]
      rw [after_of_ok hrun, (WellFormed.history cs).map_direction_after hrun, List.map_append,
        List.map_singleton, firstDirections_concat, map_pair_eq, ih]
      exact if_congr (mem_map_firstDirections _ _) rfl rfl

/-- What a balance is behind any row of calls, and what the next call does to it. -/
theorem history_stores (cs : List Booking) :
    (history cs).entries.map Entry.direction =
        firstDirections ((succeeded empty cs).map Booking.direction) ∧
      ((history cs).entries.map Entry.pair).Nodup ∧
      (history cs).Answers ∧
      ∀ c, (history cs).Books c :=
  ⟨map_direction_history cs, (WellFormed.history cs).nodup, (WellFormed.history cs).answers,
    (WellFormed.history cs).books⟩

/-- A bill that is too large to be booked. -/
def hugeInvoice : Transaction :=
  ⟨0, 1, ⟨false, 1, 1000000⟩, septemberFirst, "rent", .invoice⟩

/-- It leaves no trace, nor does a call between an account and itself. -/
example : history [.transaction hugeInvoice, .amount 1 0 .zero, .amount 2 2 .zero,
    .amount 0 1 ⟨false, 5, 0⟩] = ⟨[⟨1, 0, ⟨true, 5, 0⟩⟩]⟩ := by decide

end Balance

end HouseLedger
