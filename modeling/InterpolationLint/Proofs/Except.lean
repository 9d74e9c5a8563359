import Mathlib.Data.List.Forall2

/-!
# Computations that may fail

What a computation has gone through that has not failed: the steps of a bind, and the steps over a
list one by one.
-/

namespace InterpolationLint

section
variable {ε ε' α β : Type}

theorem bind_eq_ok {x : Except ε α} {f : α → Except ε β} {b : β}
    (h : (x >>= f) = .ok b) : ∃ a, x = .ok a ∧ f a = .ok b := by
  cases x with
  | error e => cases h
  | ok a => exact ⟨a, rfl, h⟩

theorem mapError_eq_ok_iff {x : Except ε α} {f : ε → ε'} {a : α} :
    x.mapError f = .ok a ↔ x = .ok a := by
  cases x <;> simp [Except.mapError]

theorem exists_ok_of_map {x : Except ε α} {f : α → β} {b : β}
    (h : x.toOption.map f = some b) : ∃ a, x = .ok a ∧ f a = b := by
  cases x with
  | error e => cases h
  | ok a => exact ⟨a, rfl, Option.some.inj h⟩

end

/-! ## Lists -/

section
variable {ε α β γ : Type} {xs : List α} {ys : List β} {f : α → Except ε β}

theorem exists_mem_of_forall₂ {R : α → β → Prop} (h : List.Forall₂ R xs ys) :
    ∀ x ∈ xs, ∃ y ∈ ys, R x y := by
  induction h with
  | nil => simp
  | cons hxy _ ih => grind

theorem mapM_eq_ok_iff : xs.mapM f = .ok ys ↔ List.Forall₂ (fun x y => f x = .ok y) xs ys := by
  induction xs generalizing ys with
  | nil => cases ys <;> simp [pure, Except.pure]
  | cons x xs ih =>
    rw [List.mapM_cons]
    constructor
    · intro h
      obtain ⟨y, hy, h⟩ := bind_eq_ok h
      obtain ⟨rest, hrest, h⟩ := bind_eq_ok h
      cases h
      exact .cons hy (ih.mp hrest)
    · rintro (_ | ⟨hy, hrest⟩)
      rw [hy, ih.mpr hrest]
      rfl

theorem exists_of_mapM_eq_ok (h : xs.mapM f = .ok ys) : ∀ x ∈ xs, ∃ y ∈ ys, f x = .ok y :=
  exists_mem_of_forall₂ (mapM_eq_ok_iff.mp h)

theorem mem_of_mapM_eq_ok (h : xs.mapM f = .ok ys) : ∀ y ∈ ys, ∃ x ∈ xs, f x = .ok y :=
  exists_mem_of_forall₂ (mapM_eq_ok_iff.mp h).flip

theorem mapM_eq_map {g : α → β} (h : ∀ x ∈ xs, f x = .ok (g x)) : xs.mapM f = .ok (xs.map g) := by
  rw [mapM_eq_ok_iff, List.forall₂_map_right_iff, List.forall₂_same]
  exact h

theorem mem_flatten_of_mapM_eq_ok {f : α → Except ε (List β)} {parts : List (List β)}
    (h : xs.mapM f = .ok parts) {b : β} :
    b ∈ parts.flatten ↔ ∃ x ∈ xs, ∃ part, f x = .ok part ∧ b ∈ part := by
  rw [List.mem_flatten]
  constructor
  · rintro ⟨part, hpart, hb⟩
    obtain ⟨x, hx, hfx⟩ := mem_of_mapM_eq_ok h part hpart
    exact ⟨x, hx, part, hfx, hb⟩
  · rintro ⟨x, hx, part, hfx, hb⟩
    obtain ⟨other, hother, heq⟩ := exists_of_mapM_eq_ok h x hx
    obtain rfl := Except.ok.inj (hfx.symm.trans heq)
    exact ⟨part, hother, hb⟩

theorem pairwise_of_mapM_eq_ok {R : α → α → Prop} {S : β → β → Prop} (hxs : xs.Pairwise R)
    (hstep : ∀ a b, R a b → ∀ u v, f a = .ok u → f b = .ok v → S u v) (h : xs.mapM f = .ok ys) :
    ys.Pairwise S := by
  rw [mapM_eq_ok_iff] at h
  induction h with
  | nil => exact .nil
  | cons hxy hrest ih =>
    obtain ⟨hx, hxs⟩ := List.pairwise_cons.mp hxs
    refine List.pairwise_cons.mpr ⟨?_, ih hxs⟩
    intro v hv
    obtain ⟨b, hb, hbv⟩ := exists_mem_of_forall₂ hrest.flip v hv
    exact hstep _ b (hx b hb) _ v hxy hbv

theorem exists_mapM_eq_ok_iff : (∃ ys, xs.mapM f = .ok ys) ↔ ∀ x ∈ xs, ∃ y, f x = .ok y := by
  constructor
  · rintro ⟨ys, h⟩ x hx
    obtain ⟨y, -, hy⟩ := exists_of_mapM_eq_ok h x hx
    exact ⟨y, hy⟩
  · intro h
    induction xs with
    | nil => exact ⟨[], rfl⟩
    | cons x xs ih =>
      obtain ⟨y, hy⟩ := h x List.mem_cons_self
      obtain ⟨ys, hys⟩ := ih fun x hx => h x (List.mem_cons_of_mem _ hx)
      exact ⟨y :: ys, mapM_eq_ok_iff.mpr (.cons hy (mapM_eq_ok_iff.mp hys))⟩

theorem mapM_map_eq_some {write : α → β} {read : β → Option γ} {g : α → γ}
    (h : ∀ a, read (write a) = some (g a)) (l : List α) :
    (l.map write).mapM read = some (l.map g) := by
  have hread : read ∘ write = fun a => pure (g a) := funext h
  rw [List.mapM_map, hread, List.mapM_pure]
  rfl

theorem mapM_map_of_left_inverse {write : α → β} {read : β → Option α}
    (h : ∀ a, read (write a) = some a) (l : List α) : (l.map write).mapM read = some l := by
  simpa using mapM_map_eq_some (g := id) h l

end

end InterpolationLint
