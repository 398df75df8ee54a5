/-
Reading a list element by element, where one failure fails the whole: it
succeeds exactly when every element does, and gives their values in order.
-/
import Mathlib.Data.List.Forall2

namespace VersionPick

theorem mapM_eq_some {f : α → Option β} :
    ∀ {as : List α} {bs : List β}, as.mapM f = some bs ↔ List.Forall₂ (fun a b => f a = some b) as bs
  | [], bs => by simp [eq_comm]
  | a :: as, bs => by
    have ih : ∀ {bs}, as.mapM f = some bs ↔ List.Forall₂ (fun a b => f a = some b) as bs := mapM_eq_some
    simp only [List.mapM_cons, Option.bind_eq_bind, Option.bind_eq_some_iff, Option.pure_def,
      Option.some.injEq, List.forall₂_cons_left_iff, ih]
    constructor
    · intro h
      obtain ⟨b, hb, bs', hbs, rfl⟩ := h
      exact ⟨b, bs', hb, hbs, rfl⟩
    · intro h
      obtain ⟨b, bs', hb, hbs, rfl⟩ := h
      exact ⟨b, hb, bs', hbs, rfl⟩

theorem mapM_eq_ok {f : α → Except ε β} :
    ∀ {as : List α} {bs : List β}, as.mapM f = .ok bs ↔ List.Forall₂ (fun a b => f a = .ok b) as bs
  | [], bs => by simp [pure, Except.pure, eq_comm]
  | a :: as, bs => by
    have ih : ∀ {bs}, as.mapM f = .ok bs ↔ List.Forall₂ (fun a b => f a = .ok b) as bs := mapM_eq_ok
    rw [List.mapM_cons, List.forall₂_cons_left_iff]
    cases ha : f a with
    | error e => simp [bind, Except.bind]
    | ok b =>
      cases has : as.mapM f with
      | error e =>
        have hnone : ∀ bs, ¬ List.Forall₂ (fun a b => f a = .ok b) as bs := fun bs h => by simp [ih.mpr h] at has
        simp [bind, Except.bind, hnone]
      | ok bs' =>
        simp only [bind, Except.bind, pure, Except.pure, ← ih, has, Except.ok.injEq]
        constructor
        · rintro rfl
          exact ⟨b, bs', rfl, rfl, rfl⟩
        · rintro ⟨_, _, rfl, rfl, rfl⟩
          rfl

theorem exists_of_mapM_eq_error {f : α → Except ε β} {e : ε} :
    ∀ {as : List α}, as.mapM f = .error e → ∃ a ∈ as, f a = .error e
  | [], h => by simp [pure, Except.pure] at h
  | a :: as, h => by
    rw [List.mapM_cons] at h
    cases ha : f a with
    | error e' =>
      rw [ha] at h
      cases h
      exact ⟨a, by simp, ha⟩
    | ok b =>
      cases has : as.mapM f with
      | error e' =>
        rw [ha, has] at h
        cases h
        obtain ⟨a', hm, ha'⟩ := exists_of_mapM_eq_error has
        exact ⟨a', List.mem_cons_of_mem a hm, ha'⟩
      | ok bs =>
        rw [ha, has] at h
        cases h

/-- A function that gives up on some elements, and on the others is another
one. -/
theorem mapM_eq_some_map {f : α → Option β} {g : α → β} {p : α → Prop} (h : ∀ a b, f a = some b ↔ p a ∧ b = g a)
    {as : List α} {bs : List β} : as.mapM f = some bs ↔ (∀ a ∈ as, p a) ∧ bs = as.map g := by
  have hmap : List.Forall₂ (fun a b => b = g a) as bs ↔ bs = as.map g := by
    induction as generalizing bs with
    | nil => simp
    | cons a as ih => simp [List.forall₂_cons_left_iff, ih]
  simp only [mapM_eq_some, h, List.forall₂_and_left, hmap]

theorem mapM_congr {f g : α → Option β} : ∀ {as : List α}, (∀ a ∈ as, f a = g a) → as.mapM f = as.mapM g
  | [], _ => rfl
  | a :: as, h => by
    rw [List.mapM_cons, List.mapM_cons, h a (by simp), mapM_congr fun b hb => h b (by simp [hb])]

/-- A reading by which only a view of the elements counts. -/
theorem mapM_eq_of_map_eq {f : α → Option β} {g : α → γ} (h : ∀ a b, g a = g b → f a = f b) :
    ∀ {as bs : List α}, as.map g = bs.map g → as.mapM f = bs.mapM f
  | [], [], _ => rfl
  | a :: as, b :: bs, he => by
    rw [List.map_cons, List.map_cons, List.cons.injEq] at he
    rw [List.mapM_cons, List.mapM_cons, h a b he.1, mapM_eq_of_map_eq h he.2]

/-- Two readings of a list, one after the other, are one reading of its
elements. -/
theorem mapM_mapM (f : α → Option β) (g : β → Option γ) : ∀ as : List α,
    ((as.mapM f).bind fun bs => bs.mapM g) = as.mapM fun a => (f a).bind g
  | [] => by simp
  | a :: as => by
    have ih := mapM_mapM f g as
    simp only [List.mapM_cons, ← ih]
    cases f a with
    | none => rfl
    | some b => cases as.mapM f <;> simp

/-- Each value comes from an element. -/
theorem exists_of_mem_right {R : α → β → Prop} {as : List α} {bs : List β} (h : List.Forall₂ R as bs)
    {b : β} (hb : b ∈ bs) : ∃ a ∈ as, R a b := by
  induction h with
  | nil => simp at hb
  | cons hab _ ih =>
    rcases List.mem_cons.mp hb with rfl | hb
    · exact ⟨_, by simp, hab⟩
    · obtain ⟨a, ha, hr⟩ := ih hb
      exact ⟨a, List.mem_cons_of_mem _ ha, hr⟩

theorem exists_of_mem_left {R : α → β → Prop} {as : List α} {bs : List β} (h : List.Forall₂ R as bs)
    {a : α} (ha : a ∈ as) : ∃ b ∈ bs, R a b := by
  obtain ⟨b, hb, hr⟩ := exists_of_mem_right h.flip ha
  exact ⟨b, hb, hr⟩

/-- Values for all the elements can be found one by one. -/
theorem exists_forall₂ {R : α → β → Prop} : ∀ {as : List α},
    (∃ bs, List.Forall₂ R as bs) ↔ ∀ a ∈ as, ∃ b, R a b
  | [] => by simp
  | a :: as => by
    rw [List.forall_mem_cons, ← exists_forall₂]
    constructor
    · intro h
      obtain ⟨_, h⟩ := h
      cases h with
      | cons hab h => exact ⟨⟨_, hab⟩, _, h⟩
    · intro h
      obtain ⟨⟨b, hab⟩, bs, h⟩ := h
      exact ⟨b :: bs, .cons hab h⟩

theorem exists_getElem?_of_forall₂ {R : α → β → Prop} {as : List α} {bs : List β} (h : List.Forall₂ R as bs) :
    ∀ {i : Nat} {a : α}, as[i]? = some a → ∃ b, bs[i]? = some b ∧ R a b := by
  induction h with
  | nil => simp
  | @cons a b as bs hab _ ih =>
    intro i c hc
    cases i with
    | zero =>
      obtain rfl : a = c := by simpa using hc
      exact ⟨b, rfl, hab⟩
    | succ i => exact ih (by simpa using hc)

/-! ## Several values for each element -/

theorem length_le_length_flatMap {f : α → List β} : ∀ {as : List α}, (∀ a ∈ as, f a ≠ []) →
    as.length ≤ (as.flatMap f).length
  | [], _ => by simp
  | a :: as, h => by
    have ha : 0 < (f a).length := List.length_pos_iff.mpr (h a (by simp))
    have ih : as.length ≤ (as.flatMap f).length := length_le_length_flatMap fun b hb => h b (by simp [hb])
    rw [List.flatMap_cons, List.length_append, List.length_cons]
    omega

/-- If every element has a value, there are as many values as elements exactly
if no element has a second one. -/
theorem length_flatMap_eq_iff {f : α → List β} : ∀ {as : List α}, (∀ a ∈ as, f a ≠ []) →
    ((as.flatMap f).length = as.length ↔ ∀ a ∈ as, (f a).length = 1)
  | [], _ => by simp
  | a :: as, h => by
    have ha : 0 < (f a).length := List.length_pos_iff.mpr (h a (by simp))
    have has : ∀ b ∈ as, f b ≠ [] := fun b hb => h b (by simp [hb])
    have hle : as.length ≤ (as.flatMap f).length := length_le_length_flatMap has
    rw [List.forall_mem_cons, ← length_flatMap_eq_iff has, List.flatMap_cons, List.length_append, List.length_cons]
    omega

end VersionPick
