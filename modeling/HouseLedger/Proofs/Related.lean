import HouseLedger.Proofs.Outcome
import Mathlib.Data.List.Forall2
import Mathlib.Tactic

/-!
# Related lists and outcomes

Two runs of one program on inputs that are related element by element. `List.Forall₂` relates
lists of the same length, and `Outcome.Related` computations that may fail: both end with the
same error, or both with results that are related. What is composed of related parts is related:
`Outcome.Related.bind`, `Outcome.Related.mapM`, and for the functions on lists that look at the
elements `Option.Rel` of `find?` and `List.Forall₂` of `eraseP` and `mergeSort`.
-/

namespace HouseLedger

variable {α β γ δ ε : Type} {R : α → β → Prop} {S : γ → δ → Prop}

/-! ## Lists -/

section

variable {xs : List α} {ys : List β} {p : α → Bool} {q : β → Bool}

/-- Searches that cannot tell related elements apart find related elements. -/
theorem rel_find? (h : List.Forall₂ R xs ys) (hpq : ∀ x y, R x y → p x = q y) :
    Option.Rel R (xs.find? p) (ys.find? q) := by
  induction h with
  | nil => exact .none
  | @cons x y xs ys hxy _ ih =>
    rw [List.find?_cons, List.find?_cons, hpq x y hxy]
    cases q y with
    | true => exact .some hxy
    | false => exact ih

theorem forall₂_eraseP (h : List.Forall₂ R xs ys) (hpq : ∀ x y, R x y → p x = q y) :
    List.Forall₂ R (xs.eraseP p) (ys.eraseP q) := by
  induction h with
  | nil => exact .nil
  | @cons x y xs ys hxy hrest ih =>
    rw [List.eraseP_cons, List.eraseP_cons, hpq x y hxy]
    cases q y with
    | true => exact hrest
    | false => exact .cons hxy ih

theorem forall₂_filter (h : List.Forall₂ R xs ys) (hpq : ∀ x y, R x y → p x = q y) :
    List.Forall₂ R (xs.filter p) (ys.filter q) :=
  List.rel_filter (fun _ _ hxy => Bool.eq_iff_iff.mp (hpq _ _ hxy)) h

theorem isEmpty_eq_of_forall₂ (h : List.Forall₂ R xs ys) : xs.isEmpty = ys.isEmpty := by
  cases h <;> rfl

theorem exists_of_forall₂ (h : List.Forall₂ R xs ys) {x : α} (hx : x ∈ xs) : ∃ y ∈ ys, R x y := by
  induction h with
  | nil => exact absurd hx List.not_mem_nil
  | cons hxy _ ih =>
    rcases List.mem_cons.mp hx with rfl | hx
    · exact ⟨_, List.mem_cons_self, hxy⟩
    · obtain ⟨y, hy, hxy⟩ := ih hx
      exact ⟨y, List.mem_cons_of_mem _ hy, hxy⟩

/-- It matters only how the elements of the two lists are related. -/
theorem forall₂_iff_of_mem {T : α → β → Prop} (h : ∀ x ∈ xs, ∀ y ∈ ys, R x y ↔ T x y) :
    List.Forall₂ R xs ys ↔ List.Forall₂ T xs ys := by
  induction xs generalizing ys with
  | nil => simp
  | cons x xs ih =>
    cases ys with
    | nil => simp
    | cons y ys =>
      rw [List.forall₂_cons, List.forall₂_cons, h x List.mem_cons_self y List.mem_cons_self,
        ih fun x hx y hy => h x (List.mem_cons_of_mem _ hx) y (List.mem_cons_of_mem _ hy)]

/-- What stands around an element is related to what stands around the related one. -/
theorem exists_append_of_forall₂ {ys₁ ys₂ : List β} {y : β}
    (h : List.Forall₂ R xs (ys₁ ++ y :: ys₂)) :
    ∃ xs₁ x xs₂, xs = xs₁ ++ x :: xs₂ ∧ List.Forall₂ R xs₁ ys₁ ∧ R x y := by
  induction ys₁ generalizing xs with
  | nil =>
    obtain ⟨x, xs₂, hxy, -, rfl⟩ := List.forall₂_cons_right_iff.mp h
    exact ⟨[], x, xs₂, rfl, .nil, hxy⟩
  | cons y₁ ys₁ ih =>
    obtain ⟨x₁, xs', hx₁, hrest, rfl⟩ := List.forall₂_cons_right_iff.mp h
    obtain ⟨xs₁, x, xs₂, rfl, hxs₁, hxy⟩ := ih hrest
    exact ⟨x₁ :: xs₁, x, xs₂, rfl, .cons hx₁ hxs₁, hxy⟩

/-- What differs is related to what keeps apart. -/
theorem pairwise_of_forall₂ {T : β → β → Prop}
    (hRT : ∀ x y x' y', R x y → R x' y' → x ≠ x' → T y y') (h : List.Forall₂ R xs ys)
    (hxs : xs.Nodup) : ys.Pairwise T := by
  induction h with
  | nil => exact .nil
  | @cons x y xs ys hxy hrest ih =>
    obtain ⟨hnew, hxs⟩ := List.nodup_cons.mp hxs
    refine List.pairwise_cons.mpr ⟨fun y' hy' => ?_, ih hxs⟩
    obtain ⟨ys₁, ys₂, rfl⟩ := List.append_of_mem hy'
    obtain ⟨xs₁, x', xs₂, rfl, -, hxy'⟩ := exists_append_of_forall₂ hrest
    refine hRT x y x' y' hxy hxy' ?_
    rintro rfl
    exact hnew (List.mem_append_right xs₁ List.mem_cons_self)

/-- Related lists are the two sides of a list of pairs. -/
theorem exists_pairs (h : List.Forall₂ R xs ys) :
    ∃ zs : List (α × β), xs = zs.map Prod.fst ∧ ys = zs.map Prod.snd ∧ ∀ z ∈ zs, R z.1 z.2 :=
  ⟨xs.zip ys, (List.map_fst_zip h.length_eq.le).symm, (List.map_snd_zip h.length_eq.ge).symm,
    fun z hz => List.forall₂_zip h (a := z.1) (b := z.2) hz⟩

/-- Sorting moves related elements alike if they compare alike. -/
theorem forall₂_mergeSort {r : α → α → Bool} {s : β → β → Bool} (h : List.Forall₂ R xs ys)
    (hrs : ∀ x y, R x y → ∀ x' y', R x' y' → r x x' = s y y') :
    List.Forall₂ R (xs.mergeSort r) (ys.mergeSort s) := by
  obtain ⟨zs, rfl, rfl, hzs⟩ := exists_pairs h
  rw [← List.map_mergeSort (r := fun z z' => r z.1 z'.1) (fun _ _ _ _ => rfl),
    ← List.map_mergeSort (r := fun z z' => r z.1 z'.1)
      fun z hz z' hz' => hrs _ _ (hzs z hz) _ _ (hzs z' hz'),
    List.forall₂_map_left_iff, List.forall₂_map_right_iff, List.forall₂_same]
  exact fun z hz => hzs z ((List.mergeSort_perm zs _).mem_iff.mp hz)

end

/-! ## Outcomes -/

namespace Outcome

/-- Many results stand in the places of what they result from. -/
theorem forall₂_of_mapM_eq_ok {f : α → Except ε β} {xs : List α} {ys : List β}
    (h : xs.mapM f = .ok ys) : List.Forall₂ (fun x y => f x = .ok y) xs ys := by
  induction xs generalizing ys with
  | nil =>
    cases h
    exact .nil
  | cons x xs ih =>
    rw [List.mapM_cons] at h
    obtain ⟨y, hy, h⟩ := bind_eq_ok.mp h
    obtain ⟨ys, hys, h⟩ := bind_eq_ok.mp h
    cases h
    exact .cons hy (ih hys)

/-- Both computations fail with the same error, or their results are related. -/
inductive Related (R : α → β → Prop) : Except ε α → Except ε β → Prop
  | ok {a : α} {b : β} : R a b → Related R (.ok a) (.ok b)
  | error (e : ε) : Related R (.error e) (.error e)

namespace Related

theorem refl {R : α → α → Prop} (hR : ∀ a, R a a) (x : Except ε α) : Related R x x := by
  cases x with
  | ok a => exact .ok (hR a)
  | error e => exact .error e

theorem of_eq {x y : Except ε α} (h : x = y) : Related Eq x y := h ▸ refl (fun _ => rfl) x

theorem eq {x y : Except ε α} (h : Related Eq x y) : x = y := by
  cases h with
  | ok h => rw [h]
  | error e => rfl

theorem bind {x : Except ε α} {y : Except ε β} {f : α → Except ε γ} {g : β → Except ε δ}
    (h : Related R x y) (hfg : ∀ a b, R a b → Related S (f a) (g b)) :
    Related S (x >>= f) (y >>= g) := by
  cases h with
  | ok h => exact hfg _ _ h
  | error e => exact .error e

/-- Related steps give related lists of results, and the same error where one fails. -/
theorem mapM {f : α → Except ε γ} {g : β → Except ε δ} {xs : List α} {ys : List β}
    (h : List.Forall₂ R xs ys) (hfg : ∀ a b, R a b → Related S (f a) (g b)) :
    Related (List.Forall₂ S) (xs.mapM f) (ys.mapM g) := by
  induction h with
  | nil => exact .ok .nil
  | cons hxy _ ih =>
    rw [List.mapM_cons, List.mapM_cons]
    exact (hfg _ _ hxy).bind fun _ _ hhead => ih.bind fun _ _ htail => .ok (.cons hhead htail)

theorem foldlM {f : γ → α → Except ε γ} {g : δ → β → Except ε δ} {xs : List α} {ys : List β}
    (h : List.Forall₂ R xs ys)
    (hfg : ∀ c d, S c d → ∀ a b, R a b → Related S (f c a) (g d b)) {c : γ} {d : δ} (hcd : S c d) :
    Related S (xs.foldlM f c) (ys.foldlM g d) := by
  induction h generalizing c d with
  | nil => exact .ok hcd
  | cons hxy _ ih =>
    rw [List.foldlM_cons, List.foldlM_cons]
    exact (hfg _ _ hcd _ _ hxy).bind fun _ _ h => ih h

theorem map_eq {x : Except ε α} {y : Except ε β} {f : α → γ} {g : β → γ} (h : Related R x y)
    (hfg : ∀ a b, R a b → f a = g b) : x.map f = y.map g := by
  cases h with
  | ok h => exact congrArg _ (hfg _ _ h)
  | error e => rfl

/-- Related computations that show the same show the same lines. -/
theorem mapM_eq {f : α → Except ε γ} {g : β → Except ε γ} {xs : List α} {ys : List β}
    (h : List.Forall₂ R xs ys) (hfg : ∀ a b, R a b → f a = g b) : xs.mapM f = ys.mapM g := by
  have hlines := mapM h fun a b hab => of_eq (hfg a b hab)
  rw [List.forall₂_eq_eq_eq] at hlines
  exact hlines.eq

end Related

/-! ## One possible error -/

/-- The computation has a result, or fails with this error and no other. -/
inductive FailsOnly (e : ε) : Except ε α → Prop
  | ok (a : α) : FailsOnly e (.ok a)
  | error : FailsOnly e (.error e)

namespace FailsOnly

variable {e : ε}

theorem bind {x : Except ε α} {f : α → Except ε β} (h : FailsOnly e x)
    (hf : ∀ a, x = .ok a → FailsOnly e (f a)) : FailsOnly e (x >>= f) := by
  cases h with
  | ok a => exact hf a rfl
  | error => exact .error

end FailsOnly

/-- The computation fails with this error if the condition holds, and has a result otherwise. -/
inductive FailsIff (e : ε) (P : Prop) : Except ε α → Prop
  | ok (a : α) : ¬ P → FailsIff e P (.ok a)
  | error : P → FailsIff e P (.error e)

namespace FailsIff

variable {e : ε} {P Q : Prop} {x : Except ε α}

theorem of_ok {a : α} (h : x = .ok a) : FailsIff e False x := h ▸ .ok a id

theorem of_iff (h : FailsIff e P x) (hPQ : P ↔ Q) : FailsIff e Q x := by
  cases h with
  | ok a hP => exact .ok a (mt hPQ.mpr hP)
  | error hP => exact .error (hPQ.mp hP)

theorem exists_iff (h : FailsIff e P x) : (∃ a, x = .ok a) ↔ ¬ P := by
  cases h with
  | ok a hP => simp [hP]
  | error hP => simp [hP]

theorem eq_error_iff {e' : ε} (h : FailsIff e P x) : x = .error e' ↔ P ∧ e' = e := by
  cases h with
  | ok a hP => simp [hP]
  | error hP => simp [hP, eq_comm]

theorem failsOnly (h : FailsIff e P x) : FailsOnly e x := by
  cases h with
  | ok a _ => exact .ok a
  | error _ => exact .error

theorem bind {f : α → Except ε β} (h : FailsIff e P x)
    (hf : ∀ a, x = .ok a → FailsIff e Q (f a)) : FailsIff e (P ∨ Q) (x >>= f) := by
  cases h with
  | ok a hP => exact (hf a rfl).of_iff (or_iff_right hP).symm
  | error hP => exact .error (.inl hP)

/-- What comes behind the computation does not fail. -/
theorem map {f : α → β} (h : FailsIff e P x) : FailsIff e P (x >>= fun a => .ok (f a)) :=
  (h.bind fun _ _ => of_ok rfl).of_iff (iff_of_eq (or_false P))

theorem mapM {P : α → Prop} {f : α → Except ε β} {xs : List α}
    (hf : ∀ x ∈ xs, FailsIff e (P x) (f x)) : FailsIff e (∃ x ∈ xs, P x) (xs.mapM f) := by
  induction xs with
  | nil => exact (of_ok rfl).of_iff (by simp)
  | cons x xs ih =>
    obtain ⟨hx, hxs⟩ := List.forall_mem_cons.mp hf
    rw [List.mapM_cons]
    exact (hx.bind fun _ _ => (ih hxs).map).of_iff (by simp)

end FailsIff

end Outcome

end HouseLedger
