import Mathlib.Data.List.Forall2

/-!
# Traversals that stop at the first failure

A traversal of a list succeeds exactly when every step does, and fails exactly as the first step that
fails.
-/

namespace HalConstants

variable {α β ε : Type} {f : α → Except ε β} {as : List α} {bs : List β} {e : ε}

/-- Related lists agree on what their related elements agree on. -/
theorem forall_mem_iff_of_forall₂ {R : α → β → Prop} {P : α → Prop} {Q : β → Prop}
    (h : List.Forall₂ R as bs) (hR : ∀ a b, R a b → (P a ↔ Q b)) : (∀ a ∈ as, P a) ↔ ∀ b ∈ bs, Q b := by
  induction h with
  | nil => simp
  | cons hab _ ih => rw [List.forall_mem_cons, List.forall_mem_cons, ih, hR _ _ hab]

theorem exists_of_mem_of_forall₂ {R : α → β → Prop} {b : β} (h : List.Forall₂ R as bs) (hb : b ∈ bs) :
    ∃ a ∈ as, R a b := by
  induction h with
  | nil => contradiction
  | @cons a b' as bs hab _ ih =>
      rcases List.mem_cons.mp hb with rfl | hb
      · exact ⟨a, .head as, hab⟩
      · obtain ⟨a', ha', hR⟩ := ih hb
        exact ⟨a', .tail a ha', hR⟩

theorem forall₂_filterMap {R : α → β → Prop} {f : α → Option β} (h : ∀ a ∈ as, ∃ b, f a = some b ∧ R a b) :
    List.Forall₂ R as (as.filterMap f) := by
  induction as with
  | nil => exact .nil
  | cons a as ih =>
      obtain ⟨⟨b, hb, hR⟩, htail⟩ := List.forall_mem_cons.mp h
      rw [List.filterMap_cons_some hb]
      exact .cons hR (ih htail)

/-- A sequence succeeds with both of its parts. -/
theorem bind_eq_ok_iff {x : Except ε α} {b : β} : x >>= f = .ok b ↔ ∃ a, x = .ok a ∧ f a = .ok b := by
  cases x with
  | error e =>
      constructor
      · intro h
        contradiction
      · rintro ⟨a, h, -⟩
        contradiction
  | ok a =>
      constructor
      · intro h
        exact ⟨a, rfl, h⟩
      · rintro ⟨a', h, hf⟩
        obtain rfl := Except.ok.inj h
        exact hf

/-- A sequence that ends in a pure step succeeds with its first part. -/
theorem bind_pure_eq_ok_iff {g : α → β} {x : Except ε α} {b : β} :
    (x >>= fun a => pure (g a)) = .ok b ↔ ∃ a, x = .ok a ∧ g a = b := by
  rw [bind_eq_ok_iff]
  constructor
  · rintro ⟨a, ha, h⟩
    exact ⟨a, ha, Except.ok.inj h⟩
  · rintro ⟨a, ha, rfl⟩
    exact ⟨a, ha, rfl⟩

/-- Only errors are mapped. -/
theorem mapError_eq_ok_iff {ε' : Type} {g : ε → ε'} {x : Except ε α} {a : α} : x.mapError g = .ok a ↔ x = .ok a := by
  cases x with
  | error e =>
      constructor
      · intro h
        contradiction
      · intro h
        contradiction
  | ok b => exact ⟨fun h => congrArg Except.ok (Except.ok.inj h), fun h => congrArg Except.ok (Except.ok.inj h)⟩

theorem mapM_congr {g : α → Except ε β} (h : ∀ a ∈ as, f a = g a) : as.mapM f = as.mapM g := by
  induction as with
  | nil => rfl
  | cons a as ih =>
      obtain ⟨ha, has⟩ := List.forall_mem_cons.mp h
      rw [List.mapM_cons, List.mapM_cons, ha, ih has]

theorem mapM_eq_ok_iff : as.mapM f = .ok bs ↔ List.Forall₂ (fun a b => f a = .ok b) as bs := by
  induction as generalizing bs with
  | nil =>
      rw [List.mapM_nil, List.forall₂_nil_left_iff]
      constructor
      · intro h
        exact (Except.ok.inj h).symm
      · rintro rfl
        rfl
  | cons a as ih =>
      rw [List.mapM_cons, List.forall₂_cons_left_iff]
      constructor
      · intro h
        obtain ⟨b, ha, h⟩ := bind_eq_ok_iff.mp h
        obtain ⟨bs', has, h⟩ := bind_eq_ok_iff.mp h
        exact ⟨b, bs', ha, ih.mp has, (Except.ok.inj h).symm⟩
      · rintro ⟨b, bs, ha, has, rfl⟩
        rw [ha, ih.mpr has]
        rfl

theorem exists_of_mapM_eq_error (h : as.mapM f = .error e) :
    ∃ before a after, as = before ++ a :: after ∧ (∀ b ∈ before, ∃ c, f b = .ok c) ∧
      f a = .error e := by
  induction as with
  | nil => contradiction
  | cons a as ih =>
      rw [List.mapM_cons] at h
      cases ha : f a with
      | error e' =>
          rw [ha] at h
          obtain rfl := Except.error.inj h
          exact ⟨[], a, as, rfl, by simp, ha⟩
      | ok c =>
          cases has : as.mapM f with
          | error e' =>
              rw [ha, has] at h
              obtain rfl := Except.error.inj h
              obtain ⟨before, x, after, rfl, hbefore, hx⟩ := ih has
              exact ⟨a :: before, x, after, rfl, List.forall_mem_cons.mpr ⟨⟨c, ha⟩, hbefore⟩, hx⟩
          | ok cs =>
              rw [ha, has] at h
              contradiction

theorem mapM_eq_error_iff : as.mapM f = .error e ↔ ∃ before a after, as = before ++ a :: after ∧
    (∀ b ∈ before, ∃ c, f b = .ok c) ∧ f a = .error e := by
  constructor
  · exact exists_of_mapM_eq_error
  · rintro ⟨before, a, after, rfl, hbefore, ha⟩
    induction before with
    | nil =>
        rw [List.nil_append, List.mapM_cons, ha]
        rfl
    | cons b before ih =>
        obtain ⟨⟨c, hb⟩, hmore⟩ := List.forall_mem_cons.mp hbefore
        rw [List.cons_append, List.mapM_cons, hb, ih hmore]
        rfl

theorem exists_mapM_eq_ok_iff : (∃ bs, as.mapM f = .ok bs) ↔ ∀ a ∈ as, ∃ b, f a = .ok b := by
  constructor
  · rintro ⟨bs, hbs⟩
    have hboth : List.Forall₂ (fun a b => (∃ b, f a = .ok b) ∧ f a = .ok b) as bs :=
      (mapM_eq_ok_iff.mp hbs).imp fun a b hab => ⟨⟨b, hab⟩, hab⟩
    exact (List.forall₂_and_left as bs).mp hboth |>.1
  · intro h
    cases hbs : as.mapM f with
    | ok bs => exact ⟨bs, rfl⟩
    | error e =>
        obtain ⟨before, a, after, rfl, -, ha⟩ := exists_of_mapM_eq_error hbs
        obtain ⟨b, hb⟩ := h a (by simp)
        rw [hb] at ha
        contradiction

end HalConstants
