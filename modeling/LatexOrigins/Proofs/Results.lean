/-!
# Results that may fail

What the success of a composed computation says about its parts.
-/

namespace LatexOrigins.Results

variable {ε ε' α β : Type}

@[simp] theorem bind_eq_ok {x : Except ε α} {f : α → Except ε β} {b : β} :
    (x >>= f) = .ok b ↔ ∃ a, x = .ok a ∧ f a = .ok b := by
  cases x <;> simp [bind, Except.bind]

@[simp] theorem bind_eq_error {x : Except ε α} {f : α → Except ε β} {e : ε} :
    (x >>= f) = .error e ↔ x = .error e ∨ ∃ a, x = .ok a ∧ f a = .error e := by
  cases x <;> simp [bind, Except.bind]

@[simp] theorem ok_bind (a : α) (f : α → Except ε β) : (Except.ok a >>= f) = f a := rfl

@[simp] theorem pure_eq_ok {a b : α} : (pure a : Except ε α) = .ok b ↔ a = b := by
  simp [pure, Except.pure]

theorem map_eq_ok {x : Except ε α} {f : α → β} {b : β} :
    x.map f = .ok b ↔ ∃ a, x = .ok a ∧ f a = b := by
  cases x <;> simp [Except.map]

theorem map_eq_error {x : Except ε α} {f : α → β} {e : ε} :
    x.map f = .error e ↔ x = .error e := by
  cases x <;> simp [Except.map]

@[simp] theorem mapError_ok (a : α) (f : ε → ε') : (Except.ok a).mapError f = .ok a := rfl

@[simp] theorem mapError_eq_ok {x : Except ε α} {f : ε → ε'} {a : α} :
    x.mapError f = .ok a ↔ x = .ok a := by
  cases x with
  | error e =>
      constructor
      · intro h
        cases h
      · intro h
        cases h
  | ok b => rw [mapError_ok, Except.ok.injEq, Except.ok.injEq]

theorem mapError_eq_error {x : Except ε α} {f : ε → ε'} {e : ε'} :
    x.mapError f = .error e ↔ ∃ cause, x = .error cause ∧ f cause = e := by
  cases x with
  | error cause =>
      constructor
      · intro h
        exact ⟨cause, rfl, Except.error.inj h⟩
      · rintro ⟨other, hother, rfl⟩
        rw [Except.error.inj hother]
        rfl
  | ok a =>
      constructor
      · intro h
        cases h
      · rintro ⟨other, hother, -⟩
        cases hother

theorem toOption_eq_some {x : Except ε α} {a : α} : x.toOption = some a ↔ x = .ok a := by
  cases x <;> simp [Except.toOption]

theorem exists_ok_of_isSome {x : Except ε α} (h : x.toOption.isSome = true) : ∃ a, x = .ok a := by
  obtain ⟨a, ha⟩ := Option.isSome_iff_exists.1 h
  exact ⟨a, toOption_eq_some.1 ha⟩

theorem mapM_eq_ok {f : α → Except ε β} {g : α → β} {l : List α}
    (h : ∀ a ∈ l, f a = .ok (g a)) : l.mapM f = .ok (l.map g) := by
  induction l with
  | nil => rfl
  | cons a rest ih =>
      have hrest := ih fun x hx => h x (by simp [hx])
      rw [List.mapM_cons, h a (by simp), ok_bind, hrest]
      rfl

theorem exists_map_eq_map_ok {f : α → Except ε β} {l : List α} (h : ∀ a ∈ l, ∃ b, f a = .ok b) :
    ∃ bs : List β, l.map f = bs.map .ok := by
  induction l with
  | nil => exact ⟨[], rfl⟩
  | cons a rest ih =>
      obtain ⟨⟨b, hb⟩, hrest⟩ := List.forall_mem_cons.1 h
      obtain ⟨bs, hbs⟩ := ih hrest
      exact ⟨b :: bs, by rw [List.map_cons, List.map_cons, hb, hbs]⟩

theorem filterMap_toOption_map_ok (l : List α) :
    (l.map (Except.ok : α → Except ε α)).filterMap Except.toOption = l := by
  rw [List.filterMap_map]
  exact List.filterMap_some

theorem foldlM_invariant (Inv : β → Prop) {f : β → α → Except ε β} {l : List α} {b result : β}
    (hstep : ∀ a ∈ l, ∀ b b', Inv b → f b a = .ok b' → Inv b')
    (hb : Inv b) (h : l.foldlM f b = .ok result) : Inv result := by
  induction l generalizing b with
  | nil =>
      obtain rfl := pure_eq_ok.1 h
      exact hb
  | cons a rest ih =>
      rw [List.foldlM_cons] at h
      obtain ⟨next, hnext, h⟩ := bind_eq_ok.1 h
      exact ih (fun x hx => hstep x (by simp [hx])) (hstep a (by simp) b next hb hnext) h

/-- A loop that fails has performed some steps and fails in the next. -/
theorem foldlM_eq_error_split {f : β → α → Except ε β} {l : List α} {b : β} {e : ε}
    (h : l.foldlM f b = .error e) :
    ∃ front a rest reached, l = front ++ a :: rest ∧ front.foldlM f b = .ok reached ∧
      f reached a = .error e := by
  induction l generalizing b with
  | nil => cases h
  | cons a rest ih =>
      rw [List.foldlM_cons] at h
      rcases bind_eq_error.1 h with h | ⟨next, hnext, h⟩
      · exact ⟨[], a, rest, b, rfl, rfl, h⟩
      · obtain ⟨front, other, others, reached, rfl, hfront, hfails⟩ := ih h
        refine ⟨a :: front, other, others, reached, rfl, ?_, hfails⟩
        rw [List.foldlM_cons, hnext, ok_bind, hfront]

theorem foldlM_eq_error (Inv : β → Prop) {f : β → α → Except ε β} {l : List α} {b : β} {e : ε}
    (hstep : ∀ a ∈ l, ∀ b b', Inv b → f b a = .ok b' → Inv b')
    (hb : Inv b) (h : l.foldlM f b = .error e) : ∃ a ∈ l, ∃ b, Inv b ∧ f b a = .error e := by
  obtain ⟨front, a, rest, reached, rfl, hfront, hfails⟩ := foldlM_eq_error_split h
  have hreached := foldlM_invariant Inv (fun x hx => hstep x (by simp [hx])) hb hfront
  exact ⟨a, by simp, reached, hreached, hfails⟩

/-- A computation whose failures and whose success follow from conditions that leave nothing out
fails and succeeds exactly under these conditions. -/
theorem outcome_iff {x : Except ε α} {Rejects : ε → Prop} {Accepts : Prop}
    (hrejects : ∀ e, Rejects e → x = .error e) (haccepts : Accepts → ∃ a, x = .ok a)
    (hall : (∃ e, Rejects e) ∨ Accepts) :
    (∀ e, x = .error e ↔ Rejects e) ∧ ((∃ a, x = .ok a) ↔ Accepts) := by
  rcases hall with ⟨e, he⟩ | h
  · have herror := hrejects e he
    have hnot : ¬ ∃ a, x = .ok a := by
      rintro ⟨a, ha⟩
      cases ha.symm.trans herror
    refine ⟨fun other => ⟨fun hother => ?_, hrejects other⟩, hnot.elim, fun h => haccepts h⟩
    exact Except.error.inj (herror.symm.trans hother) ▸ he
  · obtain ⟨a, ha⟩ := haccepts h
    have hnot (e : ε) : x ≠ .error e := fun he => by cases ha.symm.trans he
    exact ⟨fun e => ⟨fun he => absurd he (hnot e), hrejects e⟩, fun _ => h, fun _ => ⟨a, ha⟩⟩

/-! ## Two computations side by side -/

variable {σ τ : Type} {R : α → β → Prop} {S : σ → τ → Prop}

/-- Two computations fail with the same error, or both succeed with results that are related. -/
inductive Matched (R : α → β → Prop) : Except ε α → Except ε β → Prop where
  | ok {a : α} {b : β} (h : R a b) : Matched R (.ok a) (.ok b)
  | error (e : ε) : Matched R (.error e) (.error e)

namespace Matched

variable {x : Except ε α} {y : Except ε β}

theorem bind {f : α → Except ε σ} {g : β → Except ε τ} (h : Matched R x y)
    (hnext : ∀ a b, x = .ok a → R a b → Matched S (f a) (g b)) : Matched S (x >>= f) (y >>= g) := by
  cases h with
  | ok h => exact hnext _ _ rfl h
  | error e => exact .error e

theorem mapError (f : ε → ε') (h : Matched R x y) : Matched R (x.mapError f) (y.mapError f) := by
  cases h with
  | ok h => exact .ok h
  | error e => exact .error (f e)

end Matched

end LatexOrigins.Results
