import HouseLedger.Fault

/-!
# Steps that may fail

A computation that may fail ends with a result only if each of its steps does, and with
the error of the first that does not. The lemmas here take such a computation apart;
`FirstWithout` names the first element of a list that lacks a property.
-/

namespace HouseLedger

/-! ## The first element without a property -/

/-- The element is the first of the list that lacks the property. -/
inductive FirstWithout {α : Type} (P : α → Prop) : List α → α → Prop
  | head {x : α} {xs : List α} : ¬ P x → FirstWithout P (x :: xs) x
  | tail {x y : α} {xs : List α} : P y → FirstWithout P xs x → FirstWithout P (y :: xs) x

namespace FirstWithout

variable {α : Type} {P Q : α → Prop} {x x' : α} {xs : List α}

theorem mem (h : FirstWithout P xs x) : x ∈ xs ∧ ¬ P x := by
  induction h with
  | head hx => exact ⟨List.mem_cons_self, hx⟩
  | tail _ _ ih => exact ⟨List.mem_cons_of_mem _ ih.1, ih.2⟩

theorem not_forall (h : FirstWithout P xs x) : ¬ ∀ y ∈ xs, P y :=
  fun hall => h.mem.2 (hall x h.mem.1)

theorem unique (h : FirstWithout P xs x) (h' : FirstWithout P xs x') : x = x' := by
  induction h with
  | head hx =>
    cases h' with
    | head _ => rfl
    | tail hx' _ => exact absurd hx' hx
  | tail hy _ ih =>
    cases h' with
    | head hy' => exact absurd hy hy'
    | tail _ h' => exact ih h'

theorem congr (h : FirstWithout P xs x) (hPQ : ∀ y ∈ xs, P y ↔ Q y) : FirstWithout Q xs x := by
  induction h with
  | head hx => exact .head (mt (hPQ _ List.mem_cons_self).mpr hx)
  | tail hy _ ih =>
    obtain ⟨hhead, htail⟩ := List.forall_mem_cons.mp hPQ
    exact .tail (hhead.mp hy) (ih htail)

theorem append_right (h : FirstWithout P xs x) (ys : List α) : FirstWithout P (xs ++ ys) x := by
  induction h with
  | head hx => exact .head hx
  | tail hy _ ih => exact .tail hy ih

theorem append_left {ys : List α} (hxs : ∀ y ∈ xs, P y) (h : FirstWithout P ys x) :
    FirstWithout P (xs ++ ys) x := by
  induction xs with
  | nil => exact h
  | cons y xs ih =>
    obtain ⟨hy, hxs⟩ := List.forall_mem_cons.mp hxs
    exact .tail hy (ih hxs)

end FirstWithout

namespace Outcome

variable {ε ε' α β : Type}

/-! ## Taking a computation apart -/

theorem pure_eq (a : α) : (pure a : Except ε α) = .ok a := rfl

theorem throw_eq (e : ε) : (throw e : Except ε α) = .error e := rfl

theorem bind_eq_ok {x : Except ε α} {f : α → Except ε β} {b : β} :
    (x >>= f) = .ok b ↔ ∃ a, x = .ok a ∧ f a = .ok b := by
  cases x with
  | error e => simp [bind, Except.bind]
  | ok a => simp [bind, Except.bind]

theorem bind_eq_error {x : Except ε α} {f : α → Except ε β} {e : ε} :
    (x >>= f) = .error e ↔ x = .error e ∨ ∃ a, x = .ok a ∧ f a = .error e := by
  cases x with
  | error e' => simp [bind, Except.bind]
  | ok a => simp [bind, Except.bind]

theorem bind_ok (a : α) (f : α → Except ε β) : (Except.ok a >>= f) = f a := rfl

/-- Two computations that begin with the same step: both fail there, or both go on from its
result. -/
theorem bind_both {γ : Type} {P : Except ε β → Except ε γ → Prop} {x : Except ε α}
    {f : α → Except ε β} {g : α → Except ε γ} (herror : ∀ e, P (.error e) (.error e))
    (hok : ∀ a, x = .ok a → P (f a) (g a)) : P (x >>= f) (x >>= g) := by
  cases x with
  | error e => exact herror e
  | ok a => exact hok a rfl

/-- A computation has one result. -/
theorem ok_unique {x : Except ε α} {a b : α} (h : x = .ok a) (h' : x = .ok b) : a = b :=
  Except.ok.inj (h.symm.trans h')

theorem toOption_eq_some {x : Except ε α} {a : α} : x.toOption = some a ↔ x = .ok a := by
  cases x with
  | error e => simp [Except.toOption]
  | ok b => simp [Except.toOption]

theorem mapError_eq_ok {x : Except ε α} {f : ε → ε'} {a : α} :
    x.mapError f = .ok a ↔ x = .ok a := by
  constructor
  · intro h
    cases x with
    | error e => cases h
    | ok b =>
      cases h
      rfl
  · rintro rfl
    rfl

theorem mapError_eq_error {x : Except ε α} {f : ε → ε'} {e' : ε'} :
    x.mapError f = .error e' ↔ ∃ e, x = .error e ∧ e' = f e := by
  constructor
  · intro h
    cases x with
    | error e =>
      cases h
      exact ⟨e, rfl, rfl⟩
    | ok a => cases h
  · rintro ⟨e, rfl, rfl⟩
    rfl

theorem map_eq_ok {x : Except ε α} {f : α → β} {b : β} :
    x.map f = .ok b ↔ ∃ a, x = .ok a ∧ f a = b := by
  cases x with
  | error e => simp [Except.map]
  | ok a => simp [Except.map]

theorem map_eq_error {x : Except ε α} {f : α → β} {e : ε} :
    x.map f = .error e ↔ x = .error e := by
  cases x with
  | error e' => simp [Except.map]
  | ok a => simp [Except.map]

theorem map_map {γ : Type} (x : Except ε α) (f : α → β) (g : β → γ) :
    (x.map f).map g = x.map fun a => g (f a) := by
  cases x with
  | error e => rfl
  | ok a => rfl

theorem mapM_eq_ok {f : α → Except ε β} {xs : List α} {ys : List β} (h : xs.mapM f = .ok ys) :
    ∀ y ∈ ys, ∃ x ∈ xs, f x = .ok y := by
  induction xs generalizing ys with
  | nil =>
    cases h
    exact fun y hy => absurd hy List.not_mem_nil
  | cons x xs ih =>
    rw [List.mapM_cons, bind_eq_ok] at h
    obtain ⟨z, hz, h⟩ := h
    rw [bind_eq_ok] at h
    obtain ⟨zs, hzs, h⟩ := h
    cases h
    intro y hy
    rcases List.mem_cons.mp hy with rfl | hy
    · exact ⟨x, List.mem_cons_self, hz⟩
    · obtain ⟨w, hw, hwy⟩ := ih hzs y hy
      exact ⟨w, List.mem_cons_of_mem x hw, hwy⟩

theorem exists_ok_of_mapM_eq_ok {f : α → Except ε β} {xs : List α} {ys : List β}
    (h : xs.mapM f = .ok ys) : ∀ x ∈ xs, ∃ y ∈ ys, f x = .ok y := by
  induction xs generalizing ys with
  | nil => exact fun x hx => absurd hx List.not_mem_nil
  | cons x xs ih =>
    rw [List.mapM_cons, bind_eq_ok] at h
    obtain ⟨y, hy, h⟩ := h
    obtain ⟨ys, hys, h⟩ := bind_eq_ok.mp h
    cases h
    refine List.forall_mem_cons.mpr ⟨⟨y, List.mem_cons_self, hy⟩, fun w hw => ?_⟩
    obtain ⟨z, hz, hwz⟩ := ih hys w hw
    exact ⟨z, List.mem_cons_of_mem y hz, hwz⟩

/-- The error of many computations is that of the first that has one. -/
theorem exists_firstWithout_of_mapM_eq_error {f : α → Except ε β} {xs : List α} {e : ε}
    (h : xs.mapM f = .error e) :
    ∃ x, FirstWithout (fun x => ∃ y, f x = .ok y) xs x ∧ f x = .error e := by
  induction xs with
  | nil => cases h
  | cons x xs ih =>
    rw [List.mapM_cons, bind_eq_error] at h
    rcases h with h | ⟨y, hy, h⟩
    · refine ⟨x, .head ?_, h⟩
      rintro ⟨y, hy⟩
      exact nomatch hy.symm.trans h
    · rcases bind_eq_error.mp h with h | ⟨ys, -, h⟩
      · obtain ⟨x', hfirst, hx'⟩ := ih h
        exact ⟨x', .tail ⟨y, hy⟩ hfirst, hx'⟩
      · cases h

theorem exists_ok_iff {x : Except ε α} : (∃ a, x = .ok a) ↔ ∀ e, x ≠ .error e := by
  cases x with
  | error e => simp
  | ok a => simp

theorem mapM_eq_error_iff {f : α → Except ε β} {xs : List α} {e : ε} :
    xs.mapM f = .error e ↔ ∃ x, FirstWithout (fun x => ∃ y, f x = .ok y) xs x ∧ f x = .error e := by
  refine ⟨exists_firstWithout_of_mapM_eq_error, ?_⟩
  rintro ⟨x, hfirst, hx⟩
  induction hfirst with
  | head _ =>
    rw [List.mapM_cons, bind_eq_error]
    exact .inl hx
  | tail hy _ ih =>
    obtain ⟨y, hy⟩ := hy
    rw [List.mapM_cons, hy, bind_ok, bind_eq_error]
    exact .inl (ih hx)

theorem exists_mapM_eq_ok_iff {f : α → Except ε β} {xs : List α} :
    (∃ ys, xs.mapM f = .ok ys) ↔ ∀ x ∈ xs, ∃ y, f x = .ok y := by
  constructor
  · rintro ⟨ys, hys⟩ x hx
    obtain ⟨y, -, hy⟩ := exists_ok_of_mapM_eq_ok hys x hx
    exact ⟨y, hy⟩
  · intro hall
    cases h : xs.mapM f with
    | ok ys => exact ⟨ys, rfl⟩
    | error e =>
      obtain ⟨x, hfirst, -⟩ := exists_firstWithout_of_mapM_eq_error h
      exact absurd hall hfirst.not_forall

/-- The results stand in the places of what they result from. -/
theorem getElem?_of_mapM_eq_ok {f : α → Except ε β} {xs : List α} {ys : List β}
    (h : xs.mapM f = .ok ys) (i : Nat) :
    (xs[i]? = none ∧ ys[i]? = none) ∨ ∃ x y, xs[i]? = some x ∧ ys[i]? = some y ∧ f x = .ok y := by
  induction xs generalizing ys i with
  | nil =>
    cases h
    exact .inl ⟨rfl, rfl⟩
  | cons x xs ih =>
    rw [List.mapM_cons, bind_eq_ok] at h
    obtain ⟨y, hy, h⟩ := h
    obtain ⟨ys, hys, h⟩ := bind_eq_ok.mp h
    cases h
    cases i with
    | zero => exact .inr ⟨x, y, rfl, rfl, hy⟩
    | succ i => exact ih hys i

/-- What can be told from each result can be told from all of them. -/
theorem map_of_mapM_eq_ok {f : α → Except ε β} {g : β → α} {xs : List α} {ys : List β}
    (h : xs.mapM f = .ok ys) (hg : ∀ x y, f x = .ok y → g y = x) : ys.map g = xs := by
  refine List.ext_getElem? fun i => ?_
  rw [List.getElem?_map]
  rcases getElem?_of_mapM_eq_ok h i with ⟨hx, hy⟩ | ⟨x, y, hx, hy, hxy⟩
  · rw [hx, hy]
    rfl
  · rw [hx, hy, Option.map_some, hg x y hxy]

theorem mapM_of_forall {f : α → Except ε β} {g : α → β} {xs : List α}
    (h : ∀ x ∈ xs, f x = .ok (g x)) : xs.mapM f = .ok (xs.map g) := by
  induction xs with
  | nil => rfl
  | cons x xs ih =>
    obtain ⟨hx, hxs⟩ := List.forall_mem_cons.mp h
    rw [List.mapM_cons, hx, ih hxs]
    rfl

/-- Computations of which each gives something of a known value give results of these values. -/
theorem exists_mapM_of_forall {γ : Type} {f : α → Except ε β} {g : β → γ} {k : α → γ}
    {xs : List α} (h : ∀ x ∈ xs, ∃ y, f x = .ok y ∧ g y = k x) :
    ∃ ys, xs.mapM f = .ok ys ∧ ys.map g = xs.map k := by
  induction xs with
  | nil => exact ⟨[], rfl, rfl⟩
  | cons x xs ih =>
    obtain ⟨⟨y, hy, hvalue⟩, hxs⟩ := List.forall_mem_cons.mp h
    obtain ⟨ys, hys, hvalues⟩ := ih hxs
    refine ⟨y :: ys, ?_, by rw [List.map_cons, List.map_cons, hvalue, hvalues]⟩
    rw [List.mapM_cons, hy, hys]
    rfl

end Outcome

end HouseLedger
