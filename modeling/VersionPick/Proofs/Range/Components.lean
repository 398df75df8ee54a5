/-
Which numbers a version text gives. A `Spelling` is such a text taken apart:
signs, one to three components, each a numeral or a wildcard, and behind three
of them an optional pre-release and build metadata. Its numbers are those
before the first wildcard, and its pre-release counts only if there are three.

The texts that are read as partial versions are the texts of spellings
(`exists_read?_iff`), and what is read has the numbers that the spelling gives
(`Spelling.exists_read?_text`). Every partial version has such a text
(`read?_text`).
-/
import VersionPick.Proofs.Range.Spelling

namespace VersionPick

open Text Version

/-- The numbers of a core, in their order. -/
def Core.numbers (c : Core) : List UInt64 := [c.major, c.minor, c.patch]

namespace Partial

/-- The numbers that a partial version gives, in their order. -/
def given : Partial → List UInt64
  | .any => []
  | .major a => [a]
  | .minor a b => [a, b]
  | .full v => v.core.numbers

/-- The version with zeros for the numbers not given. -/
def lower : Partial → Version
  | .any => .release 0 0 0
  | .major a => .release a 0 0
  | .minor a b => .release a b 0
  | .full v => v

/-! ## Components -/

/-- A component of a version text: the numeral of a number, or a wildcard. -/
inductive Component
  | number (n : UInt64)
  | wildcard (sign : Char) (isSign : sign ∈ ['x', 'X', '*'])

namespace Component

def text : Component → List Char
  | .number n => Decimal.writeWord n
  | .wildcard sign _ => [sign]

/-- What a component is read as: `none` stands for a wildcard. -/
def number? : Component → Option UInt64
  | .number n => some n
  | .wildcard _ _ => none

/-- The numbers before the first wildcard. -/
def given : List Component → List UInt64
  | .number n :: more => n :: given more
  | _ => []

theorem number?_text : ∀ component : Component, Partial.number? component.text = some component.number?
  | .number n => number?_writeWord n
  | .wildcard sign h => by
    simp only [List.mem_cons, List.not_mem_nil, or_false] at h
    rcases h with rfl | rfl | rfl <;> rfl

theorem exists_text {part : List Char} {n : Option UInt64} (h : Partial.number? part = some n) :
    ∃ component : Component, component.text = part := by
  cases n with
  | some n => exact ⟨.number n, (number?_eq_some_some h).symm⟩
  | none =>
    unfold Partial.number? at h
    split at h
    next hx =>
      simp only [Bool.or_eq_true, beq_iff_eq] at hx
      rcases hx with (rfl | rfl) | rfl
      · exact ⟨.wildcard 'x' (by decide), rfl⟩
      · exact ⟨.wildcard 'X' (by decide), rfl⟩
      · exact ⟨.wildcard '*' (by decide), rfl⟩
    next => simp at h

theorem text_ne_nil : ∀ component : Component, component.text ≠ []
  | .number n => Decimal.writeWord_ne_nil n
  | .wildcard _ _ => List.cons_ne_nil _ _

theorem mem_text {c : Char} : ∀ {component : Component}, c ∈ component.text →
    c.isDigit = true ∨ c ∈ ['x', 'X', '*']
  | .number _, h => .inl (Decimal.isDigit_of_mem_writeWord h)
  | .wildcard _ hs, h => .inr (List.mem_singleton.mp h ▸ hs)

/-- The components with dots between them. -/
def joined (components : List Component) : List Char :=
  List.intercalate ['.'] (components.map text)

theorem mem_joined {components : List Component} {c : Char} (h : c ∈ joined components) :
    c.isDigit = true ∨ c ∈ ['.', 'x', 'X', '*'] := by
  rcases mem_intercalate h with h | ⟨piece, hp, h⟩
  · exact .inr (List.mem_cons.mpr (.inl (by simpa using h)))
  · obtain ⟨component, -, rfl⟩ := List.mem_map.mp hp
    exact (mem_text h).imp_right (List.mem_cons_of_mem _)

theorem not_mem_joined {d : Char} (hdigit : d.isDigit = false) (h : d ∉ ['.', 'x', 'X', '*'])
    (components : List Component) : d ∉ joined components := by
  intro hd
  rcases mem_joined hd with hd | hd
  · simp [hdigit] at hd
  · exact h hd

theorem joined_ne_nil : ∀ {components : List Component}, components ≠ [] → joined components ≠ []
  | [], h => absurd rfl h
  | [component], _ => by simpa [joined] using component.text_ne_nil
  | component :: _ :: _, _ => by simp [joined, component.text_ne_nil]

/-- Components start with none of the signs in front of them. -/
theorem exists_head_joined {components : List Component} (h : components ≠ []) :
    ∃ c cs, joined components = c :: cs ∧ c ≠ 'v' ∧ c ≠ '=' := by
  obtain ⟨c, cs, hc⟩ := List.exists_cons_of_ne_nil (joined_ne_nil h)
  have hne {d : Char} (hdigit : d.isDigit = false) (hd : d ∉ ['.', 'x', 'X', '*']) : c ≠ d := by
    rintro rfl
    exact not_mem_joined hdigit hd components (by simp [hc])
  exact ⟨c, cs, hc, hne (by decide) (by decide), hne (by decide) (by decide)⟩

theorem bare_joined {components : List Component} (h : components ≠ []) (rest : List Char) :
    bare (joined components ++ rest) = joined components ++ rest := by
  obtain ⟨c, cs, hc, hv, he⟩ := exists_head_joined h
  simp [hc, bare, hv, he]

theorem splitOn_joined {components : List Component} (h : components ≠ []) :
    List.splitOn '.' (joined components) = components.map text := by
  refine List.splitOn_intercalate '.' (fun piece hp hc => ?_) (by simpa using h)
  obtain ⟨component, -, rfl⟩ := List.mem_map.mp hp
  exact absurd (mem_text hc) (by decide)

/-- A core that is read is a list of components. -/
theorem exists_joined {core : List Char} {numbers : List (Option UInt64)}
    (h : List.Forall₂ (fun part n => Partial.number? part = some n) (List.splitOn '.' core) numbers) :
    ∃ components, joined components = core ∧ components.length = numbers.length ∧ components ≠ [] := by
  obtain ⟨components, hc⟩ : ∃ components, List.Forall₂ (fun part (component : Component) => component.text = part)
      (List.splitOn '.' core) components :=
    exists_forall₂.mpr fun part hp => by
      obtain ⟨n, -, hn⟩ := exists_of_mem_left h hp
      exact exists_text hn
  have hparts : components.map text = List.splitOn '.' core := by
    rw [← List.forall₂_eq_eq_eq, List.forall₂_map_left_iff]
    exact hc.flip
  refine ⟨components, ?_, hc.length_eq.symm.trans h.length_eq, fun hnil => ?_⟩
  · rw [joined, hparts, List.intercalate_splitOn]
  · rw [hnil, List.map_nil] at hparts
    exact List.splitOn_ne_nil '.' core hparts.symm

end Component

/-! ## What components are read as -/

/-- The numbers before the first wildcard are the ones given; the pre-release
counts only behind three of them. -/
theorem ofNumbers_components (ids : List Identifier) : ∀ {components : List Component}, components.length ≤ 3 →
    (ofNumbers (components.map Component.number?) ids).given = Component.given components ∧
    (ofNumbers (components.map Component.number?) ids).lower =
      ⟨⟨(Component.given components).getD 0 0, (Component.given components).getD 1 0,
        (Component.given components).getD 2 0⟩, if (Component.given components).length = 3 then ids else []⟩
  | [], _ => ⟨rfl, rfl⟩
  | .wildcard _ _ :: _, _ => ⟨rfl, rfl⟩
  | [.number _], _ => ⟨rfl, rfl⟩
  | .number _ :: .wildcard _ _ :: _, _ => ⟨rfl, rfl⟩
  | [.number _, .number _], _ => ⟨rfl, rfl⟩
  | .number _ :: .number _ :: .wildcard _ _ :: _, _ => ⟨rfl, rfl⟩
  | [.number _, .number _, .number _], _ => ⟨rfl, rfl⟩
  | _ :: _ :: _ :: _ :: _, h => absurd h (by simp only [List.length_cons]; omega)

/-! ## Spellings -/

/-- A text of a partial version, taken apart. A pre-release and build metadata
need three components. -/
structure Spelling where
  lead : List Char := []
  components : List Component
  pre : Option (List Identifier) := none
  build : Option (List Char) := none
  isLead : ∀ c ∈ lead, c = 'v' ∨ c = '=' := by simp
  ne_nil : components ≠ [] := by simp
  length_le : components.length ≤ 3 := by simp
  complete : components.length = 3 ∨ pre = none ∧ build = none := by simp
  isBuild : isBuildText (build.getD []) = true := by decide

namespace Spelling

variable (s : Spelling)

def text : List Char :=
  s.lead ++ Component.joined s.components ++ optional '-' (s.pre.map Identifier.listText) ++
    optional '+' s.build

/-- The numbers given: the numerals before the first component that is a
wildcard or missing. -/
def given : List UInt64 := Component.given s.components

/-- The version with zeros for the numbers not given; the pre-release counts
only behind three numbers. -/
def lower : Version :=
  ⟨⟨s.given.getD 0 0, s.given.getD 1 0, s.given.getD 2 0⟩, if s.given.length = 3 then s.pre.getD [] else []⟩

theorem bare_text : bare s.text = Component.joined s.components ++
    optional '-' (s.pre.map Identifier.listText) ++ optional '+' s.build := by
  have hlead : ∀ c ∈ s.lead, (c == 'v' || c == '=') = true := fun c hc => by simpa using s.isLead c hc
  rw [text, List.append_assoc, List.append_assoc, bare, List.dropWhile_append_of_pos hlead, List.append_assoc]
  exact Component.bare_joined s.ne_nil _

/-- An equals sign that a spelling starts with is one of its signs. -/
theorem head?_lead (h : s.text.head? = some '=') : s.lead.head? = some '=' := by
  obtain ⟨c, cs, hc, -, he⟩ := Component.exists_head_joined s.ne_nil
  cases hl : s.lead with
  | nil => simp [text, hl, hc, he] at h
  | cons d lead => simpa [text, hl] using h

theorem plus_not_mem_pre : ∀ pre : Option (List Identifier), '+' ∉ optional '-' (pre.map Identifier.listText)
  | none, h => nomatch h
  | some ids, h => by
    rcases List.mem_cons.mp h with h | h
    · exact absurd h (by decide)
    · exact absurd (Identifier.char_of_list? (Identifier.list?_listText ids) h) (by decide)

/-- A spelling is read as what its components and its pre-release are. -/
theorem read?_components :
    read? s.text = some (ofNumbers (s.components.map Component.number?) (s.pre.getD [])) := by
  have hpre : (s.pre.map Identifier.listText).getD [] = Identifier.listText (s.pre.getD []) := by
    cases s.pre <;> rfl
  refine read?_eq_some.mpr ⟨Component.joined s.components, s.pre.map Identifier.listText, s.build, _, _,
    s.bare_text, Component.not_mem_joined (by decide) (by decide) _, ?_, ?_, ?_, s.isBuild, ?_, ?_, rfl⟩
  · simp [plus_not_mem_pre, Component.not_mem_joined (show '+'.isDigit = false by decide) (by decide)]
  · rw [Component.splitOn_joined s.ne_nil]
    exact List.forall₂_map_left_iff.mpr (List.forall₂_map_right_iff.mpr
      (List.forall₂_same.mpr fun component _ => component.number?_text))
  · rw [hpre, Identifier.list?_listText]
  · simpa using s.length_le
  · simpa using s.complete

/-- What is read has the numbers that the spelling gives. -/
theorem exists_read?_text : ∃ p, read? s.text = some p ∧ p.given = s.given ∧ p.lower = s.lower :=
  ⟨_, s.read?_components, ofNumbers_components _ s.length_le⟩

/-- The number behind a wildcard is not given. -/
example : read? "v1.x.3".toList = some (.major 1) := by decide

end Spelling

/-- Every text that is read has a spelling. -/
theorem exists_spelling {t : List Char} {p : Partial} (h : read? t = some p) : ∃ s : Spelling, s.text = t := by
  obtain ⟨lead, ht, hlead⟩ := exists_lead t
  obtain ⟨core, pre, build, numbers, ids, hb, -, -, hn, hi, hbuild, hl, hc, -⟩ := read?_eq_some.mp h
  obtain ⟨components, rfl, hlength, hne⟩ := Component.exists_joined hn
  have hpre : (pre.map fun _ => ids).map Identifier.listText = pre := by
    cases pre with
    | none => rfl
    | some cs => exact congrArg some (Identifier.eq_listText_of_list? hi).symm
  have hcomplete : components.length = 3 ∨ (pre.map fun _ => ids) = none ∧ build = none := by
    rw [hlength, Option.map_eq_none_iff]
    exact hc
  refine ⟨⟨lead, components, pre.map fun _ => ids, build, hlead, hne, hlength.trans_le hl, hcomplete, hbuild⟩, ?_⟩
  rw [Spelling.text, hpre, ht, hb, List.append_assoc, List.append_assoc, List.append_assoc]

/-- The texts of partial versions are the texts of spellings. -/
theorem exists_read?_iff {t : List Char} : (∃ p, read? t = some p) ↔ ∃ s : Spelling, s.text = t := by
  constructor
  · intro h
    obtain ⟨p, h⟩ := h
    exact exists_spelling h
  · intro h
    obtain ⟨s, rfl⟩ := h
    exact ⟨_, s.read?_components⟩

/-! ## A text of every partial version -/

/-- A text of a partial version: its numbers, or one wildcard. -/
def text : Partial → List Char
  | .any => ['*']
  | .major a => Decimal.writeWord a
  | .minor a b => List.intercalate ['.'] [Decimal.writeWord a, Decimal.writeWord b]
  | .full v => v.text

/-- The text of a partial version, taken apart. -/
def spelling : Partial → Spelling
  | .any => { components := [.wildcard '*' (by decide)] }
  | .major a => { components := [.number a] }
  | .minor a b => { components := [.number a, .number b] }
  | .full v =>
    { components := [.number v.core.major, .number v.core.minor, .number v.core.patch]
      pre := if v.pre.isEmpty then none else some v.pre }

theorem text_spelling : ∀ p : Partial, p.spelling.text = p.text
  | .any => rfl
  | .major a => by simp [spelling, Spelling.text, Component.joined, Component.text, optional, text]
  | .minor a b => by simp [spelling, Spelling.text, Component.joined, Component.text, optional, text]
  | .full v => by
    cases hpre : v.pre <;>
      simp [spelling, Spelling.text, Component.joined, Component.text, optional, text, Version.text, Core.text, hpre]

/-- Every partial version has a text. -/
theorem read?_text (p : Partial) : read? p.text = some p := by
  rw [← text_spelling, Spelling.read?_components]
  cases p with
  | full v =>
    obtain ⟨core, pre⟩ := v
    cases pre <;> rfl
  | _ => rfl

theorem head?_text (p : Partial) : p.text.head? ≠ some '=' := by
  intro h
  have hlead : p.spelling.lead = [] := by cases p <;> rfl
  rw [← text_spelling] at h
  simpa [hlead] using p.spelling.head?_lead h

end Partial

end VersionPick
