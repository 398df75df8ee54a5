/-
What is picked from a list: the first of the elements that no other beats
(`firstBest_eq_some`), and of a catalogue the first of the best entries that
denote a release in question (`Entry.greatest_eq_some`, `least_eq_some`). The
order of the list decides between entries of equal precedence.
-/
import VersionPick.Range.Pick
import VersionPick.Proofs.Precedence

namespace VersionPick

/-! ## The first of the best -/

/-- An element that no element of the list beats, and that beats all those in
front of it. -/
def IsFirstBest (beats : α → α → Bool) (as : List α) (best : α) : Prop :=
  ∃ before behind, as = before ++ best :: behind ∧
    (∀ a ∈ as, beats a best = false) ∧ ∀ a ∈ before, beats best a = true

namespace IsFirstBest

variable {beats : α → α → Bool} {as : List α} {a best : α}

theorem mem (h : IsFirstBest beats as best) : best ∈ as := by
  obtain ⟨before, behind, rfl, -⟩ := h
  simp

/-- There is only one first of the best. -/
theorem unique {best' : α} (h : IsFirstBest beats as best) (h' : IsFirstBest beats as best') : best = best' := by
  obtain ⟨before, behind, he, hall, hfirst⟩ := h
  obtain ⟨before', behind', he', hall', hfirst'⟩ := h'
  have hmem : best ∈ as := he ▸ by simp
  have hmem' : best' ∈ as := he' ▸ by simp
  rw [he] at he'
  rcases List.append_eq_append_iff.mp he' with ⟨mid, hb, hm⟩ | ⟨mid, hb, hm⟩
  · cases mid with
    | nil => exact (List.cons.inj (by simpa using hm)).1
    | cons c mid =>
      -- `best` is in front of `best'`.
      obtain rfl : best = c := (List.cons.inj hm).1
      have := hfirst' best (by simp [hb])
      simp [hall best' hmem'] at this
  · cases mid with
    | nil => exact (List.cons.inj (by simpa using hm)).1.symm
    | cons c mid =>
      obtain rfl : best' = c := (List.cons.inj hm).1
      have := hfirst best' (by simp [hb])
      simp [hall' best hmem] at this

/-- What makes an order on which to look for the best: no two elements beat
each other, and what beats one element beats, or is beaten by, any other. -/
structure Order (beats : α → α → Bool) : Prop where
  asymm : ∀ {a b}, beats a b = true → beats b a = false
  cotrans : ∀ {a b}, beats a b = true → ∀ c, beats a c = true ∨ beats c b = true

theorem single (ho : Order beats) (a : α) : IsFirstBest beats [a] a := by
  refine ⟨[], [], rfl, fun b hb => ?_, by simp⟩
  obtain rfl := List.mem_singleton.mp hb
  cases h : beats b b with
  | false => rfl
  | true => simp [ho.asymm h] at h

/-- One more element: it is the new best if it beats the old one. -/
theorem step (ho : Order beats) (h : IsFirstBest beats as best) (a : α) :
    IsFirstBest beats (as ++ [a]) (if beats a best then a else best) := by
  obtain ⟨before, behind, he, hall, hfirst⟩ := h
  split
  next ha =>
    refine ⟨as, [], rfl, fun b hb => ?_, fun b hb => ?_⟩
    · cases hba : beats b a with
      | false => rfl
      | true =>
        rcases List.mem_append.mp hb with hb | hb
        · rcases ho.cotrans hba best with h | h
          · simp [hall b hb] at h
          · simp [ho.asymm ha] at h
        · obtain rfl := List.mem_singleton.mp hb
          simp [ho.asymm hba] at hba
    · rcases ho.cotrans ha b with h | h
      · exact h
      · simp [hall b hb] at h
  next ha =>
    refine ⟨before, behind ++ [a], by simp [he], fun b hb => ?_, hfirst⟩
    rcases List.mem_append.mp hb with hb | hb
    · exact hall b hb
    · obtain rfl := List.mem_singleton.mp hb
      simpa using ha

/-- All further elements, one after the other. -/
theorem run (ho : Order beats) : ∀ (bs : List α) {as : List α} {best : α}, IsFirstBest beats as best →
    IsFirstBest beats (as ++ bs) (bs.foldl (fun best b => if beats b best then b else best) best)
  | [], _, _, h => by simpa using h
  | b :: bs, as, _, h => by
    have := run ho bs (step ho h b)
    simpa using this

end IsFirstBest

theorem firstBest_eq_none {beats : α → α → Bool} {as : List α} : firstBest beats as = none ↔ as = [] := by
  cases as <;> simp [firstBest]

/-- `firstBest` finds the first of the best. -/
theorem firstBest_eq_some {beats : α → α → Bool} (ho : IsFirstBest.Order beats) {as : List α} {best : α} :
    firstBest beats as = some best ↔ IsFirstBest beats as best := by
  have hfound : ∀ b, firstBest beats as = some b → IsFirstBest beats as b := by
    intro b h
    cases as with
    | nil => simp [firstBest] at h
    | cons a as =>
      simp only [firstBest, Option.some.injEq] at h
      exact h ▸ IsFirstBest.run ho as (IsFirstBest.single ho a)
  refine ⟨hfound best, fun h => ?_⟩
  cases hf : firstBest beats as with
  | none => simpa [firstBest_eq_none.mp hf] using h.mem
  | some b => rw [(hfound b hf).unique h]

/-- The first of the best among what is made of the elements of a list. -/
theorem isFirstBest_filterMap {beats : β → β → Bool} {f : α → Option β} {as : List α} {best : β} :
    IsFirstBest beats (as.filterMap f) best ↔ ∃ before a behind, as = before ++ a :: behind ∧
      f a = some best ∧ (∀ a' ∈ as, ∀ b, f a' = some b → beats b best = false) ∧
      ∀ a' ∈ before, ∀ b, f a' = some b → beats best b = true := by
  constructor
  · intro h
    obtain ⟨before, behind, he, hall, hfirst⟩ := h
    obtain ⟨front, rest, rfl, hfront, hrest⟩ := List.filterMap_eq_append_iff.mp he
    obtain ⟨skipped, a, tail, rfl, hskipped, ha, -⟩ := List.filterMap_eq_cons_iff.mp hrest
    refine ⟨front ++ skipped, a, tail, by simp, ha, fun a' ha' b hb => ?_, fun a' ha' b hb => ?_⟩
    · exact hall b (List.mem_filterMap.mpr ⟨a', ha', hb⟩)
    · rcases List.mem_append.mp ha' with ha' | ha'
      · exact hfirst b (hfront ▸ List.mem_filterMap.mpr ⟨a', ha', hb⟩)
      · simp [hskipped a' ha'] at hb
  · intro h
    obtain ⟨before, a, behind, rfl, ha, hall, hfirst⟩ := h
    refine ⟨before.filterMap f, behind.filterMap f, by simp [ha], fun b hb => ?_, fun b hb => ?_⟩
    · obtain ⟨a', ha', hb⟩ := List.mem_filterMap.mp hb
      exact hall a' ha' b hb
    · obtain ⟨a', ha', hb⟩ := List.mem_filterMap.mp hb
      exact hfirst a' ha' b hb

/-! ## Catalogue entries -/

/-- The text denotes a release of the version. -/
def Denotes (entry : String) (v : Version) : Prop :=
  ∃ release, Release.read? entry = some release ∧ release.version = v

/-- The first entry among those that denote a version in question and that no
other of them beats: `o` is how a version compares to those it beats. -/
def Picks (o : Ordering) (asked : Version → Bool) (available : List String) (entry : String) : Prop :=
  ∃ before behind v, available = before ++ entry :: behind ∧ Denotes entry v ∧ asked v = true ∧
    (∀ other ∈ available, ∀ w, Denotes other w → asked w = true → compare w v ≠ o) ∧
    ∀ other ∈ before, ∀ w, Denotes other w → asked w = true → compare v w = o

namespace Entry

/-- An entry beats another if its version compares so to the other's. -/
def beats (o : Ordering) (a b : Entry) : Bool :=
  compare a.release.version b.release.version == o

theorem order_beats {o : Ordering} (ho : o ≠ .eq) : IsFirstBest.Order (beats o) where
  asymm {a b} h := by
    simp only [beats, beq_iff_eq, beq_eq_false_iff_ne] at h ⊢
    rw [Std.OrientedOrd.eq_swap, h]
    cases o <;> simp at ho ⊢
  cotrans {a b} h c := by
    simp only [beats, beq_iff_eq] at h ⊢
    generalize a.release.version = u at h ⊢
    generalize b.release.version = w at h ⊢
    generalize c.release.version = v at h ⊢
    cases o with
    | eq => exact absurd rfl ho
    | lt =>
      by_cases hu : compare u v = .lt
      · exact .inl hu
      · have hvu := Std.OrientedCmp.isLE_of_isGE (Ordering.isGE_iff_ne_lt.mpr hu)
        exact .inr (Std.TransCmp.lt_of_isLE_of_lt hvu h)
    | gt =>
      by_cases hu : compare u v = .gt
      · exact .inl hu
      · have hvu := Std.OrientedCmp.isGE_of_isLE (Ordering.isLE_iff_ne_gt.mpr hu)
        exact .inr (Std.TransCmp.gt_of_isGE_of_gt hvu h)

/-- The entry that is read from a text, if its version is in question. -/
def ofText? (asked : Version → Bool) (text : String) : Option Entry :=
  ((Release.read? text).map (Entry.mk text)).filter fun e => asked e.release.version

theorem ofText?_eq_some {asked : Version → Bool} {text : String} {e : Entry} :
    ofText? asked text = some e ↔
      e.written = text ∧ Release.read? text = some e.release ∧ asked e.release.version = true := by
  simp only [ofText?, Option.filter_eq_some_iff, Option.map_eq_some_iff]
  constructor
  · intro h
    obtain ⟨⟨release, hr, rfl⟩, ha⟩ := h
    exact ⟨rfl, hr, ha⟩
  · intro h
    obtain ⟨rfl, hr, ha⟩ := h
    exact ⟨⟨e.release, hr, rfl⟩, ha⟩

theorem filter_list (asked : Version → Bool) (available : List String) :
    ((list available).filter fun e => asked e.release.version) = available.filterMap (ofText? asked) := by
  simp only [list, List.filter_filterMap]
  rfl

/-- The first of the best entries of a catalogue, as written. -/
theorem map_firstBest_eq_some {o : Ordering} (ho : o ≠ .eq) {asked : Version → Bool}
    {available : List String} {entry : String} :
    (firstBest (beats o) (available.filterMap (ofText? asked))).map (·.written) = some entry ↔
      Picks o asked available entry := by
  simp only [Option.map_eq_some_iff, firstBest_eq_some (order_beats ho), isFirstBest_filterMap,
    ofText?_eq_some]
  constructor
  · intro h
    obtain ⟨e, ⟨before, a, behind, he, ⟨rfl, hr, ha⟩, hall, hfirst⟩, rfl⟩ := h
    refine ⟨before, behind, e.release.version, he, ⟨_, hr, rfl⟩, ha, ?_, ?_⟩
    · intro other hm w hd hw
      obtain ⟨release, hother, rfl⟩ := hd
      simpa [beats] using hall other hm ⟨other, release⟩ ⟨rfl, hother, hw⟩
    · intro other hm w hd hw
      obtain ⟨release, hother, rfl⟩ := hd
      simpa [beats] using hfirst other hm ⟨other, release⟩ ⟨rfl, hother, hw⟩
  · intro h
    obtain ⟨before, behind, v, he, ⟨release, hr, rfl⟩, ha, hall, hfirst⟩ := h
    refine ⟨⟨entry, release⟩, ⟨before, entry, behind, he, ⟨rfl, hr, ha⟩, ?_, ?_⟩, rfl⟩
    · intro other hm b hd
      obtain ⟨-, hother, hb⟩ := hd
      simpa [beats] using hall other hm b.release.version ⟨_, hother, rfl⟩ hb
    · intro other hm b hd
      obtain ⟨-, hother, hb⟩ := hd
      simpa [beats] using hfirst other hm b.release.version ⟨_, hother, rfl⟩ hb

theorem map_firstBest_eq_none {o : Ordering} {asked : Version → Bool} {available : List String} :
    (firstBest (beats o) (available.filterMap (ofText? asked))).map (·.written) = none ↔
      ∀ entry ∈ available, ∀ v, Denotes entry v → asked v = false := by
  simp only [Option.map_eq_none_iff, firstBest_eq_none, List.filterMap_eq_nil_iff]
  refine forall₂_congr fun entry _ => ⟨?_, fun h => ?_⟩
  · intro h v hd
    obtain ⟨release, hr, rfl⟩ := hd
    cases ha : asked release.version with
    | false => rfl
    | true =>
      have he : ofText? asked entry = some ⟨entry, release⟩ := ofText?_eq_some.mpr ⟨rfl, hr, ha⟩
      simp [h] at he
  · cases he : ofText? asked entry with
    | none => rfl
    | some e =>
      obtain ⟨-, hr, ha⟩ := ofText?_eq_some.mp he
      simp [h _ ⟨_, hr, rfl⟩] at ha

/-! What `greatest` and `least` pick of the entries whose version is in
question. -/

variable {asked : Version → Bool} {available : List String} {entry : String}

theorem greatest_eq (entries : List Entry) :
    greatest entries = (firstBest (beats .gt) entries).map (·.written) := by
  have hbeats : (fun a b : Entry => (compare a.release.version b.release.version).isGT) = beats .gt := by
    funext a b
    unfold beats
    cases compare a.release.version b.release.version <;> rfl
  rw [greatest, hbeats]

theorem least_eq (entries : List Entry) :
    least entries = (firstBest (beats .lt) entries).map (·.written) := by
  have hbeats : (fun a b : Entry => (compare a.release.version b.release.version).isLT) = beats .lt := by
    funext a b
    unfold beats
    cases compare a.release.version b.release.version <;> rfl
  rw [least, hbeats]

theorem greatest_eq_some : greatest ((list available).filter fun e => asked e.release.version) = some entry ↔
    Picks .gt asked available entry := by
  rw [greatest_eq, filter_list, map_firstBest_eq_some (by decide)]

theorem greatest_eq_none : greatest ((list available).filter fun e => asked e.release.version) = none ↔
    ∀ entry ∈ available, ∀ v, Denotes entry v → asked v = false := by
  rw [greatest_eq, filter_list, map_firstBest_eq_none]

theorem least_eq_some : least ((list available).filter fun e => asked e.release.version) = some entry ↔
    Picks .lt asked available entry := by
  rw [least_eq, filter_list, map_firstBest_eq_some (by decide)]

theorem least_eq_none : least ((list available).filter fun e => asked e.release.version) = none ↔
    ∀ entry ∈ available, ∀ v, Denotes entry v → asked v = false := by
  rw [least_eq, filter_list, map_firstBest_eq_none]

end Entry

theorem Picks.mem {o : Ordering} {asked : Version → Bool} {available : List String} {entry : String}
    (h : Picks o asked available entry) : entry ∈ available := by
  obtain ⟨before, behind, v, rfl, -⟩ := h
  simp

end VersionPick
