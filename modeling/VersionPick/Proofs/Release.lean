/-
How releases are spelled: a core, then a pre-release behind a hyphen, then
build metadata behind a plus sign, where a part that is empty has no sign
either (`signed`). Nothing else is free in such a text, so it is the one text
of its release (`ofText?_eq_some`).
-/
import VersionPick.Version.Release
import VersionPick.Proofs.Range.Spelling

namespace VersionPick

open Text Version

/-- A part with its sign in front; an empty part is left out together with it. -/
def signed (sign : Char) (part : List Char) : List Char :=
  if part.isEmpty then [] else sign :: part

@[simp] theorem signed_nil (sign : Char) : signed sign [] = [] := rfl

@[simp] theorem signed_cons (sign c : Char) (cs : List Char) : signed sign (c :: cs) = sign :: c :: cs := rfl

theorem mem_signed {sign c : Char} {part : List Char} (h : c ∈ signed sign part) : c = sign ∨ c ∈ part := by
  cases part with
  | nil => simp at h
  | cons d part => simpa using h

/-- A part is cut off at its sign, and a sign without a part is refused. -/
theorem cutOptional?_eq_some {sign : Char} {cs front part : List Char} :
    cutOptional? sign cs = some (front, part) ↔ cs = front ++ signed sign part ∧ sign ∉ front := by
  unfold cutOptional?
  cases hcut : cutAt sign cs with
  | none =>
    have hsign : sign ∉ cs := cutAt_eq_none.mp hcut
    simp only [Option.some.injEq, Prod.mk.injEq]
    constructor
    · rintro ⟨rfl, rfl⟩
      exact ⟨by simp, hsign⟩
    · rintro ⟨rfl, hfront⟩
      cases part with
      | nil => simp
      | cons c part => simp at hsign
  | some halves =>
    obtain ⟨before, behind⟩ := halves
    obtain ⟨rfl, hbefore⟩ := cutAt_eq_some.mp hcut
    -- A second cut at the sign would be at the same place.
    have hunique : ∀ {front' part'}, before ++ sign :: behind = front' ++ sign :: part' → sign ∉ front' →
        before = front' ∧ behind = part' := by
      intro front' part' he hf
      rw [cutAt_eq_some.mpr ⟨he, hf⟩] at hcut
      simpa [eq_comm] using hcut
    cases behind with
    | nil =>
      simp only [reduceCtorEq, false_iff, not_and]
      intro he hf
      cases part with
      | nil =>
        rw [signed_nil, List.append_nil] at he
        exact hf (by rw [← he]; simp)
      | cons c part => exact absurd (hunique he hf).2 (by simp)
    | cons c behind =>
      simp only [Option.some.injEq, Prod.mk.injEq]
      constructor
      · rintro ⟨rfl, rfl⟩
        exact ⟨rfl, hbefore⟩
      · rintro ⟨he, hf⟩
        cases part with
        | nil =>
          rw [signed_nil, List.append_nil] at he
          exact absurd (by rw [← he]; simp) hf
        | cons d part => exact hunique he hf

/-- A text is put together from its front and a part in one way only. -/
theorem signed_inj {sign : Char} {front part front' part' : List Char} (hf : sign ∉ front) (hf' : sign ∉ front')
    (h : front ++ signed sign part = front' ++ signed sign part') : front = front' ∧ part = part' := by
  have hcut : cutOptional? sign (front ++ signed sign part) = some (front, part) :=
    cutOptional?_eq_some.mpr ⟨rfl, hf⟩
  rw [cutOptional?_eq_some.mpr ⟨h, hf'⟩] at hcut
  simpa [eq_comm] using hcut

/-! ## Cores and versions -/

theorem Core.text_eq (c : Core) :
    c.text = List.intercalate ['.'] ([c.major, c.minor, c.patch].map Decimal.writeWord) := rfl

theorem Core.ofText?_eq_some {cs : List Char} {c : Core} : ofText? cs = some c ↔ cs = c.text := by
  have hparts : (List.splitOn '.' cs).mapM Decimal.word? = some [c.major, c.minor, c.patch] ↔ cs = c.text := by
    rw [mapM_eq_some, Core.text_eq, ← Partial.splitOn_eq_numbers (by simp), ← List.forall₂_eq_eq_eq,
      List.forall₂_map_right_iff]
    simp only [Decimal.word?_eq_some]
  rw [← hparts, ofText?]
  constructor
  · intro h
    split at h
    next a b d hread =>
      obtain rfl : (⟨a, b, d⟩ : Core) = c := Option.some.inj h
      exact hread
    next => cases h
  · intro h
    rw [h]

theorem Core.not_mem_text {c : Core} {d : Char} (hdigit : d.isDigit = false) (hdot : d ≠ '.') : d ∉ c.text := by
  rw [Core.text_eq]
  exact Partial.not_mem_of_digit_or_dot (fun _ => Partial.digit_or_dot_of_mem) hdigit hdot

theorem Version.text_eq (v : Version) : v.text = v.core.text ++ signed '-' (Identifier.listText v.pre) := by
  rw [text]
  cases hpre : v.pre with
  | nil => rfl
  | cons i is =>
    obtain ⟨c, cs, hc⟩ := List.exists_cons_of_ne_nil (Identifier.listText_ne_nil (List.cons_ne_nil i is))
    simp [hc]

theorem Version.plus_not_mem_text (v : Version) : '+' ∉ v.text := by
  intro h
  rw [Version.text_eq] at h
  rcases List.mem_append.mp h with h | h
  · exact Core.not_mem_text (by decide) (by decide) h
  · rcases mem_signed h with h | h
    · exact absurd h (by decide)
    · have hlist := Identifier.list?_listText v.pre
      exact absurd (Identifier.char_of_list? hlist h) (by decide)

/-! ## Releases -/

namespace Release

/-- The text of a release. -/
def text (r : Release) : List Char :=
  r.version.text ++ signed '+' r.build

/-- **A release has one text**, which is read as the release if its build
metadata could have been written. -/
theorem ofText?_eq_some {cs : List Char} {r : Release} :
    ofText? cs = some r ↔ isBuildText r.build = true ∧ cs = r.text := by
  simp only [ofText?, Option.bind_eq_bind, Option.bind_eq_some_iff, Prod.exists, cutOptional?_eq_some,
    Core.ofText?_eq_some, Option.ite_none_right_eq_some, Option.some.injEq]
  constructor
  · intro h
    obtain ⟨front, build, ⟨rfl, -⟩, core, pre, ⟨rfl, -⟩, c, rfl, ids, hids, hbuild, rfl⟩ := h
    refine ⟨hbuild, ?_⟩
    rw [text, Version.text_eq, Identifier.eq_listText_of_list? hids]
  · rintro ⟨hbuild, rfl⟩
    have hhyphen : '-' ∉ r.version.core.text := Core.not_mem_text (by decide) (by decide)
    exact ⟨_, _, ⟨rfl, r.version.plus_not_mem_text⟩, _, _, ⟨Version.text_eq _, hhyphen⟩, _, rfl, _,
      Identifier.list?_listText _, hbuild, rfl⟩

end Release

end VersionPick
