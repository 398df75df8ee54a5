/-
Range texts put together. With `||` between them two texts are the union of
their ranges. With a blank between them they are the intersection, as long as
each is one alternative and no hyphen range (`union_and_intersection`).

A text that is a range ends with no operator that waits for a version, and a
hyphen of its own is part of it, so neither changes what stands next to it
(`attachSigns_append`, `comparators_of_readWords?`). Pre-releases are asked for in one
alternative as a whole: one that a text of the two asks for is admitted, if the
comparators of the other admit it, too.
-/
import VersionPick.Proofs.Range.Desugaring

namespace VersionPick

open Text Version

namespace Range

/-! ## Operators and the words behind them -/

/-- The words are put together, but no character is moved. -/
theorem attachSigns_flatten : ∀ (pending : List Char) (ws : List (List Char)),
    (attachSigns pending ws).flatten = pending ++ ws.flatten
  | pending, [] => by
    cases pending <;> simp [attachSigns]
  | pending, word :: ws => by
    simp only [attachSigns]
    split
    · rw [attachSigns_flatten, List.flatten_cons, List.append_assoc]
    · rw [List.flatten_cons, attachSigns_flatten, List.flatten_cons, List.nil_append, List.append_assoc]

/-- Words behind words that leave no operator waiting are put together on their
own. -/
theorem attachSigns_append (ws' : List (List Char)) : ∀ {pending : List Char} {ws : List (List Char)},
    pending = [] ∨ Operator.isSign pending = true →
    (∀ token ∈ attachSigns pending ws, Operator.isSign token = false) →
      attachSigns pending (ws ++ ws') = attachSigns pending ws ++ attachSigns [] ws'
  | pending, [], hp, h => by
    rcases hp with rfl | hp
    · rfl
    · have hne : pending ≠ [] := by
        rintro rfl
        cases hp
      have hsign : Operator.isSign pending = false := h pending (by simp [attachSigns, hne])
      simp [hp] at hsign
  | pending, word :: ws, hp, h => by
    simp only [attachSigns, List.cons_append] at h ⊢
    split
    next hs =>
      rw [if_pos hs] at h
      exact attachSigns_append ws' (.inr hs) h
    next hs =>
      rw [if_neg hs] at h
      rw [attachSigns_append ws' (.inl rfl) fun token ht => h token (List.mem_cons_of_mem _ ht), List.cons_append]

theorem readWords?_append {ws ws' : List (List Char)} {cs ds : Alternative} (h : readWords? ws = some cs)
    (h' : readWords? ws' = some ds) (hno : ∀ low high, ws ≠ [low, ['-'], high])
    (hno' : ∀ low high, ws' ≠ [low, ['-'], high]) : readWords? (ws ++ ws') = some (cs ++ ds) := by
  obtain ⟨hhyphen, parts, hparts, rfl⟩ := comparators_of_readWords? h hno
  obtain ⟨hhyphen', parts', hparts', rfl⟩ := comparators_of_readWords? h' hno'
  have hsigns : ∀ token ∈ attachSigns [] ws, Operator.isSign token = false := by
    intro token ht
    obtain ⟨part, -, hpart⟩ := exists_of_mem_left hparts ht
    rw [Bool.eq_false_iff]
    intro hs
    simp [readComparator?_isSign hs] at hpart
  rw [readWords?_of_no_hyphen (by simp [hhyphen, hhyphen']), attachSigns_append ws' (.inl rfl) hsigns,
    mapM_eq_some.mpr (List.rel_append hparts hparts'), Option.map_some, List.flatten_append]

/-! ## Pieces -/

/-- What is read as an alternative has no bar in it. -/
theorem bar_not_mem_of_readWords? {cs : List Char} {alternative : Alternative}
    (h : readWords? (words cs) = some alternative) : '|' ∉ cs := by
  intro hc
  obtain ⟨word, hw, hc⟩ := (mem_words (by decide)).mp hc
  rcases readWords?_eq_some h with ⟨low, high, p, q, hws, hp, hq, -⟩ | ⟨parts, hparts, -⟩
  · simp only [hws, List.mem_cons, List.not_mem_nil, or_false] at hw
    rcases hw with rfl | rfl | rfl
    · exact bar_not_mem_of_read? hp hc
    · revert hc
      decide
    · exact bar_not_mem_of_read? hq hc
  · have hflat : '|' ∈ (attachSigns [] (words cs)).flatten := by
      rw [attachSigns_flatten]
      exact List.mem_flatten.mpr ⟨word, hw, hc⟩
    obtain ⟨token, ht, hc⟩ := List.mem_flatten.mp hflat
    obtain ⟨part, -, hpart⟩ := exists_of_mem_left hparts ht
    rcases char_of_readComparator? hpart hc with hc | hc
    · exact absurd hc (by decide)
    · exact absurd hc (by decide)

theorem bar_not_mem_piece {cs : List Char} {r : Range} (h : read? cs = some r) :
    ∀ piece ∈ splitOnPair '|' cs, '|' ∉ piece := by
  intro piece hp
  obtain ⟨alternative, -, hread⟩ := exists_of_mem_left (read?_eq_some.mp h) hp
  exact bar_not_mem_of_readWords? hread

theorem read?_bars {a b : List Char} {r s : Range} (ha : read? a = some r) (hb : read? b = some s) :
    read? (a ++ '|' :: '|' :: b) = some ⟨r.alternatives ++ s.alternatives⟩ := by
  rw [read?_eq_some, splitOnPair_append_sep b (bar_not_mem_piece ha)]
  exact List.rel_append (read?_eq_some.mp ha) (read?_eq_some.mp hb)

end Range

/-! ## What is admitted -/

namespace Alternative

variable {cs ds : Alternative} {v : Version}

theorem admits_append_of_both (hcs : Alternative.admits cs v = true) (hds : Alternative.admits ds v = true) :
    Alternative.admits (cs ++ ds) v = true := by
  simp only [Alternative.admits, Bool.and_eq_true, List.all_append, List.any_append, Bool.or_eq_true] at *
  exact ⟨⟨hcs.1, hds.1⟩, hcs.2.imp_right .inl⟩

/-- The comparator that asks for a pre-release stands on one side, and there
all comparators admit it. -/
theorem admits_or_of_append (h : Alternative.admits (cs ++ ds) v = true) :
    (∀ c ∈ cs ++ ds, c.admits v = true) ∧ (Alternative.admits cs v = true ∨ Alternative.admits ds v = true) := by
  simp only [Alternative.admits, Bool.and_eq_true, List.all_append, List.any_append, Bool.or_eq_true] at h ⊢
  obtain ⟨⟨hcs, hds⟩, hasked⟩ := h
  refine ⟨List.forall_mem_append.mpr ⟨List.all_eq_true.mp hcs, List.all_eq_true.mp hds⟩, ?_⟩
  rcases hasked with hv | hasked | hasked
  · exact .inl ⟨hcs, .inl hv⟩
  · exact .inl ⟨hcs, .inr hasked⟩
  · exact .inr ⟨hds, .inr hasked⟩

end Alternative

namespace Range

/-- The text is one alternative, and no hyphen range. -/
def IsConjunction (text : String) : Prop :=
  ¬ ['|', '|'] <:+: text.toList ∧ ∀ low high, words text.toList ≠ [low, ['-'], high]

theorem read?_blank {a b : List Char} {r s : Range} (ha : read? a = some r) (hb : read? b = some s)
    (hbar : ¬ ['|', '|'] <:+: a) (hbar' : ¬ ['|', '|'] <:+: b)
    (hno : ∀ low high, words a ≠ [low, ['-'], high]) (hno' : ∀ low high, words b ≠ [low, ['-'], high]) :
    ∃ cs ds, r = ⟨[cs]⟩ ∧ s = ⟨[ds]⟩ ∧ read? (a ++ ' ' :: b) = some ⟨[cs ++ ds]⟩ := by
  rw [read?_single hbar, Option.map_eq_some_iff] at ha
  rw [read?_single hbar', Option.map_eq_some_iff] at hb
  obtain ⟨cs, hcs, rfl⟩ := ha
  obtain ⟨ds, hds, rfl⟩ := hb
  refine ⟨cs, ds, rfl, rfl, ?_⟩
  rw [read?_single (pair_not_infix_append (by decide) hbar' hbar), words_append_blank (by decide),
    readWords?_append hcs hds hno hno', Option.map_some]

/-- **Union and intersection.** With `||` between them two texts are the union
of their ranges, for every version. With a blank between them two conjunctions
are one alternative with the comparators of both. A release is in it when it is
in both. So is a pre-release that is in both; one that is in it passes all
comparators, and is in at least one of the two. -/
theorem union_and_intersection {a b : String} {r s : Range} (ha : parse a = .ok r) (hb : parse b = .ok s) :
    (∃ u, parse (a ++ "||" ++ b) = .ok u ∧ u.alternatives = r.alternatives ++ s.alternatives ∧
      ∀ v, u.admits v = (r.admits v || s.admits v)) ∧
    (IsConjunction a → IsConjunction b → ∃ cs ds u, r.alternatives = [cs] ∧ s.alternatives = [ds] ∧
      parse (a ++ " " ++ b) = .ok u ∧ u.alternatives = [cs ++ ds] ∧
      (∀ v : Version, v.isRelease = true → u.admits v = (r.admits v && s.admits v)) ∧
      ∀ v : Version, v.isRelease = false →
        (r.admits v = true → s.admits v = true → u.admits v = true) ∧
        (u.admits v = true → (∀ c ∈ cs ++ ds, c.admits v = true) ∧ (r.admits v = true ∨ s.admits v = true))) := by
  rw [parse_eq_ok] at ha hb
  refine ⟨⟨⟨r.alternatives ++ s.alternatives⟩, ?_, rfl, fun v => ?_⟩, fun ⟨hbar, hno⟩ ⟨hbar', hno'⟩ => ?_⟩
  · rw [parse_eq_ok, String.toList_append, String.toList_append, List.append_assoc]
    exact read?_bars ha hb
  · rw [admits, admits, admits, List.any_append]
  · obtain ⟨cs, ds, rfl, rfl, hread⟩ := read?_blank ha hb hbar hbar' hno hno'
    refine ⟨cs, ds, ⟨[cs ++ ds]⟩, rfl, rfl, ?_, rfl, fun v hv => ?_, fun v _ => ?_⟩
    · rw [parse_eq_ok, String.toList_append, String.toList_append, List.append_assoc]
      exact hread
    · rw [admits_alternative, admits_alternative, admits_alternative, Alternative.admits_append hv]
    · simp only [admits_single]
      exact ⟨Alternative.admits_append_of_both, Alternative.admits_or_of_append⟩

/-- A lower end that is a pre-release, its sign standing apart, and an upper end. -/
theorem union_and_intersection_candidate :
    let low : Comparator := ⟨.ge, ⟨⟨1, 2, 0⟩, [⟨"rc1".toList, by decide⟩]⟩⟩
    let high : Comparator := ⟨.lt, .lowest 2 0 0⟩
    parse ">= 1.2.0-rc1" = .ok ⟨[[low]]⟩ ∧ parse "<2" = .ok ⟨[[high]]⟩ ∧
    IsConjunction ">= 1.2.0-rc1" ∧ IsConjunction "<2" ∧
    (∃ u, parse (">= 1.2.0-rc1" ++ "||" ++ "<2") = .ok u ∧ u.alternatives = [[low], [high]]) ∧
    ∃ u, parse (">= 1.2.0-rc1" ++ " " ++ "<2") = .ok u ∧ u.alternatives = [[low, high]] := by
  intro low high
  have ha : parse ">= 1.2.0-rc1" = .ok ⟨[[low]]⟩ := by decide
  have hb : parse "<2" = .ok ⟨[[high]]⟩ := by decide
  have hca : IsConjunction ">= 1.2.0-rc1" := by
    have hwords : words ">= 1.2.0-rc1".toList = [">=".toList, "1.2.0-rc1".toList] := by decide
    exact ⟨by decide, fun _ _ he => by cases hwords.symm.trans he⟩
  have hcb : IsConjunction "<2" := by
    have hwords : words "<2".toList = ["<2".toList] := by decide
    exact ⟨by decide, fun _ _ he => by cases hwords.symm.trans he⟩
  obtain ⟨⟨u, hu, halternatives, -⟩, h⟩ := union_and_intersection ha hb
  obtain ⟨cs, ds, w, hcs, hds, hw, halternative, -⟩ := h hca hcb
  obtain rfl : [low] = cs := List.singleton_inj.mp hcs
  obtain rfl : [high] = ds := List.singleton_inj.mp hds
  exact ⟨ha, hb, hca, hcb, ⟨u, hu, halternatives⟩, w, hw, halternative⟩

end Range

end VersionPick
