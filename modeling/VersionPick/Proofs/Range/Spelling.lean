/-
How partial versions are spelled. `read?_eq_some` takes a text apart: signs
in front, a core of dotted components, then pre-release and build metadata.
From it: which characters such a text has (`isPartialChar_of_read?`), and
that a text read as a full pre-release contains the version as it is written
(`writes_of_read?`).
-/
import VersionPick.Proofs.Precedence
import VersionPick.Range.Partial
import VersionPick.Proofs.Text.Decimal
import VersionPick.Proofs.Text.Pieces
import VersionPick.Proofs.Traverse

namespace VersionPick

open Text Version

/-! ## Identifiers -/

namespace Version.Identifier

theorem ofText?_eq_some {cs : List Char} {i : Identifier} : ofText? cs = some i ↔ cs = i.text := by
  unfold ofText?
  split
  next h =>
    simp only [Option.some.injEq]
    exact ⟨fun e => e ▸ rfl, fun e => by subst e; rfl⟩
  next h => simpa using fun e : cs = i.text => h (e ▸ i.isText)

theorem isIdentifierChar_of_mem {i : Identifier} {c : Char} (h : c ∈ i.text) : isIdentifierChar c = true := by
  have hi := i.isText
  simp only [isIdentifierText, Bool.and_eq_true, List.all_eq_true] at hi
  exact hi.1.2 c h

/-- A text without end is read as the identifiers it is written with. -/
theorem eq_listText_of_list? {cs : List Char} {ids : List Identifier} (h : list? cs = some ids) :
    cs = listText ids := by
  unfold list? at h
  split at h
  next he =>
    simp only [Option.some.injEq] at h
    subst h
    simpa [listText] using he
  next he =>
    have hp : List.splitOn '.' cs = ids.map text := by
      have := mapM_eq_some.mp h
      simp only [ofText?_eq_some] at this
      rw [← List.forall₂_eq_eq_eq]
      exact List.forall₂_map_right_iff.mpr this
    rw [listText, ← hp, List.intercalate_splitOn]

theorem listText_ne_nil {ids : List Identifier} (h : ids ≠ []) : listText ids ≠ [] := by
  cases ids with
  | nil => exact absurd rfl h
  | cons i ids =>
    have hi := i.text_ne_nil
    cases ids with
    | nil => simpa [listText] using hi
    | cons j ids => simp [listText, hi]

/-- Identifiers are read back from the text they are written as. -/
theorem list?_listText (ids : List Identifier) : list? (listText ids) = some ids := by
  cases ids with
  | nil => simp [listText, list?]
  | cons i is =>
    have hdot : ∀ piece ∈ (i :: is).map text, '.' ∉ piece := by
      intro piece hp hc
      obtain ⟨j, -, rfl⟩ := List.mem_map.mp hp
      exact absurd (isIdentifierChar_of_mem hc) (by decide)
    have hne : (listText (i :: is)).isEmpty = false := by simpa using listText_ne_nil (by simp)
    rw [list?, hne, listText, List.splitOn_intercalate '.' hdot (by simp)]
    simp only [Bool.false_eq_true, if_false, mapM_eq_some]
    exact List.forall₂_map_left_iff.mpr (List.forall₂_same.mpr fun j _ => ofText?_eq_some.mpr rfl)

/-- The characters of a list of identifiers: those of its identifiers, and dots. -/
theorem char_of_list? {cs : List Char} {ids : List Identifier} (h : list? cs = some ids) {c : Char}
    (hc : c ∈ cs) : isIdentifierChar c = true ∨ c = '.' := by
  rw [eq_listText_of_list? h] at hc
  rcases mem_intercalate hc with hc | ⟨text, ht, hc⟩
  · exact .inr (by simpa using hc)
  · obtain ⟨i, -, rfl⟩ := List.mem_map.mp ht
    exact .inl (isIdentifierChar_of_mem hc)

end Version.Identifier

theorem char_of_isBuildText {cs : List Char} (h : isBuildText cs = true) {c : Char} (hc : c ∈ cs) :
    isIdentifierChar c = true ∨ c = '.' := by
  simp only [isBuildText, Bool.or_eq_true, List.all_eq_true, Bool.and_eq_true] at h
  rcases h with h | h
  · cases cs with
    | nil => simp at hc
    | cons => simp at h
  · rcases mem_splitOn '.' hc with rfl | ⟨part, hp, hc⟩
    · exact .inr rfl
    · exact .inl ((h part hp).2 c hc)

namespace Partial

/-! ## The parts of a text -/

/-- A part that may be missing, with its sign in front. -/
def optional (sign : Char) : Option (List Char) → List Char
  | none => []
  | some cs => sign :: cs

theorem cut_eq {sign : Char} {cs before : List Char} {behind : Option (List Char)} :
    cut sign cs = (before, behind) ↔ cs = before ++ optional sign behind ∧ sign ∉ before := by
  unfold cut
  cases h : cutAt sign cs with
  | none =>
    have hn := cutAt_eq_none.mp h
    simp only [Prod.mk.injEq]
    constructor
    · intro h'
      obtain ⟨rfl, rfl⟩ := h'
      exact ⟨by simp [optional], hn⟩
    · intro h'
      obtain ⟨rfl, hb⟩ := h'
      cases behind with
      | none => simp [optional]
      | some cs => simp [optional] at hn
  | some parts =>
    obtain ⟨b, a⟩ := parts
    obtain ⟨rfl, hb⟩ := cutAt_eq_some.mp h
    simp only [Prod.mk.injEq]
    constructor
    · intro h'
      obtain ⟨rfl, rfl⟩ := h'
      exact ⟨rfl, hb⟩
    · intro h'
      obtain ⟨he, hb'⟩ := h'
      cases behind with
      | none => exact absurd (he ▸ by simp) (by simpa [optional] using hb' : sign ∉ before ++ [])
      | some cs =>
        have := cutAt_eq_some.mpr ⟨he, hb'⟩
        rw [h] at this
        simpa using this

theorem exists_lead (cs : List Char) : ∃ lead, cs = lead ++ bare cs ∧ ∀ c ∈ lead, c = 'v' ∨ c = '=' := by
  refine ⟨cs.takeWhile fun c => c == 'v' || c == '=', by simp [bare], fun c hc => ?_⟩
  have := List.all_eq_true.mp (List.all_takeWhile (l := cs) (p := fun c => c == 'v' || c == '=')) c hc
  simpa using this

theorem read?_of_cut {cs front core : List Char} {build pre : Option (List Char)} {p : Partial}
    (h₁ : cut '+' (bare cs) = (front, build)) (h₂ : cut '-' front = (core, pre)) :
    read? cs = some p ↔ ∃ numbers ids,
      List.Forall₂ (fun part n => number? part = some n) (List.splitOn '.' core) numbers ∧
      Identifier.list? (pre.getD []) = some ids ∧ isBuildText (build.getD []) = true ∧
      numbers.length ≤ 3 ∧ (numbers.length = 3 ∨ pre = none ∧ build = none) ∧
      p = ofNumbers numbers ids := by
  unfold read?
  simp only [h₁, h₂, Option.bind_eq_bind, Option.bind_eq_some_iff, mapM_eq_some,
    Option.ite_none_right_eq_some, Bool.and_eq_true, Bool.or_eq_true, beq_iff_eq, decide_eq_true_eq,
    Option.isNone_iff_eq_none, Option.some.injEq]
  constructor
  · intro h'
    obtain ⟨numbers, hn, ids, hi, ⟨⟨hc, hl⟩, ht⟩, rfl⟩ := h'
    rw [hn.length_eq] at hc hl
    exact ⟨numbers, ids, hn, hi, ht, hl, hc, rfl⟩
  · intro h'
    obtain ⟨numbers, ids, hn, hi, ht, hl, hc, rfl⟩ := h'
    rw [← hn.length_eq] at hc hl
    exact ⟨numbers, hn, ids, hi, ⟨⟨hc, hl⟩, ht⟩, rfl⟩

/-- What a text has to be to spell a partial version: signs, then dotted
components, then an optional pre-release and optional build metadata, which
need all three components. -/
theorem read?_eq_some {cs : List Char} {p : Partial} : read? cs = some p ↔
    ∃ core pre build numbers ids,
      bare cs = core ++ optional '-' pre ++ optional '+' build ∧
      '-' ∉ core ∧ '+' ∉ core ++ optional '-' pre ∧
      List.Forall₂ (fun part n => number? part = some n) (List.splitOn '.' core) numbers ∧
      Identifier.list? (pre.getD []) = some ids ∧ isBuildText (build.getD []) = true ∧
      numbers.length ≤ 3 ∧ (numbers.length = 3 ∨ pre = none ∧ build = none) ∧
      p = ofNumbers numbers ids := by
  constructor
  · intro h
    obtain ⟨front, build, h₁⟩ : ∃ front build, cut '+' (bare cs) = (front, build) := ⟨_, _, rfl⟩
    obtain ⟨core, pre, h₂⟩ : ∃ core pre, cut '-' front = (core, pre) := ⟨_, _, rfl⟩
    obtain ⟨numbers, ids, h⟩ := (read?_of_cut h₁ h₂).mp h
    obtain ⟨hb, hplus⟩ := cut_eq.mp h₁
    obtain ⟨rfl, hminus⟩ := cut_eq.mp h₂
    exact ⟨core, pre, build, numbers, ids, hb, hminus, hplus, h⟩
  · intro h'
    obtain ⟨core, pre, build, numbers, ids, hb, hminus, hplus, h⟩ := h'
    exact (read?_of_cut (cut_eq.mpr ⟨hb, hplus⟩) (cut_eq.mpr ⟨rfl, hminus⟩)).mpr ⟨numbers, ids, h⟩

/-- The signs in front of a text make no difference. -/
theorem read?_congr {cs ds : List Char} (h : bare cs = bare ds) : read? cs = read? ds := by
  unfold read?
  rw [h]

/-! ## The characters of a text -/

theorem number?_eq_some_some {part : List Char} {n : UInt64} (h : number? part = some (some n)) :
    part = Decimal.writeWord n := by
  unfold number? at h
  split at h
  · simp at h
  · rw [Option.map_eq_some_iff] at h
    obtain ⟨m, hm, he⟩ := h
    cases he
    exact Decimal.word?_eq_some.mp hm

/-- The characters that texts of partial versions are made of. -/
def isPartialChar (c : Char) : Bool :=
  c.isAlphanum || ['-', '.', '+', '*', '='].contains c

theorem isPartialChar_of_identifier {c : Char} (h : isIdentifierChar c = true ∨ c = '.') :
    isPartialChar c = true := by
  rcases h with h | rfl
  · simp only [isIdentifierChar, Bool.or_eq_true, beq_iff_eq] at h
    rcases h with h | rfl
    · simp [isPartialChar, h]
    · decide
  · decide

theorem isPartialChar_of_number? {part : List Char} {n : Option UInt64} (h : number? part = some n)
    {c : Char} (hc : c ∈ part) : isPartialChar c = true := by
  cases n with
  | some n =>
    rw [number?_eq_some_some h] at hc
    have := Decimal.isDigit_of_mem_writeWord hc
    simp [isPartialChar, Char.isAlphanum, this]
  | none =>
    unfold number? at h
    split at h
    next hx =>
      simp only [Bool.or_eq_true, beq_iff_eq] at hx
      rcases hx with (rfl | rfl) | rfl <;> simp only [List.mem_singleton] at hc <;> subst hc <;> decide
    next => simp at h

theorem isPartialChar_of_optional {sign c : Char} {cs : Option (List Char)} (hs : isPartialChar sign = true)
    (h : ∀ d ∈ cs.getD [], isPartialChar d = true) (hc : c ∈ optional sign cs) : isPartialChar c = true := by
  cases cs with
  | none => simp [optional] at hc
  | some cs =>
    rcases List.mem_cons.mp hc with rfl | hc
    · exact hs
    · exact h c hc

theorem isPartialChar_of_read? {cs : List Char} {p : Partial} (h : read? cs = some p) {c : Char}
    (hc : c ∈ cs) : isPartialChar c = true := by
  obtain ⟨lead, he, hlead⟩ := exists_lead cs
  obtain ⟨core, pre, build, numbers, ids, hb, -, -, hn, hi, ht, -⟩ := read?_eq_some.mp h
  rw [he, hb] at hc
  simp only [List.mem_append] at hc
  rcases hc with hc | (hc | hc) | hc
  · rcases hlead c hc with rfl | rfl <;> decide
  · rcases mem_splitOn '.' hc with rfl | ⟨part, hp, hc⟩
    · decide
    · obtain ⟨n, -, hn⟩ := exists_of_mem_left hn hp
      exact isPartialChar_of_number? hn hc
  · exact isPartialChar_of_optional (by decide)
      (fun d hd => isPartialChar_of_identifier (Identifier.char_of_list? hi hd)) hc
  · exact isPartialChar_of_optional (by decide)
      (fun d hd => isPartialChar_of_identifier (char_of_isBuildText ht hd)) hc

theorem read?_nil : read? [] = none := by decide

theorem ne_nil_of_read? {cs : List Char} {p : Partial} (h : read? cs = some p) : cs ≠ [] := by
  rintro rfl
  simp [read?_nil] at h

theorem toNat_of_isAlphanum {c : Char} (h : c.isAlphanum = true) : 48 ≤ c.toNat ∧ c.toNat ≤ 122 := by
  simp only [Char.isAlphanum, Char.isAlpha, Char.isUpper, Char.isLower, Char.isDigit,
    Bool.or_eq_true, Bool.and_eq_true, decide_eq_true_eq, UInt32.le_iff_toNat_le, ge_iff_le] at h
  have hc : c.val.toNat = c.toNat := rfl
  simp [hc] at h
  omega

theorem not_isBlank_of_isPartialChar {c : Char} (h : isPartialChar c = true) : isBlank c = false := by
  simp only [isPartialChar, Bool.or_eq_true, List.contains_eq_mem, decide_eq_true_eq, List.mem_cons,
    List.not_mem_nil, or_false] at h
  rcases h with h | rfl | rfl | rfl | rfl | rfl
  · have := toNat_of_isAlphanum h
    simp only [isBlank, Bool.or_eq_false_iff, Bool.and_eq_false_iff, decide_eq_false_iff_not,
      beq_eq_false_iff_ne]
    omega
  all_goals decide

/-! ## Full versions -/

theorem ofNumbers_eq_full {numbers : List (Option UInt64)} {ids : List Identifier} {v : Version}
    (hl : numbers.length ≤ 3) (h : Partial.full v = ofNumbers numbers ids) :
    numbers = [some v.core.major, some v.core.minor, some v.core.patch] ∧ ids = v.pre := by
  unfold ofNumbers at h
  split at h
  next a b c more =>
    simp only [full.injEq] at h
    subst h
    simp only [List.length_cons] at hl
    have : more = [] := List.eq_nil_of_length_eq_zero (by omega)
    simp [this]
  all_goals cases h

/-- A numeral is no wildcard. -/
theorem number?_numeral {cs : List Char} (h : Decimal.isNumeral cs = true) :
    number? cs = (Decimal.word? cs).map some := by
  have hdigit : ∀ c : Char, c.isDigit = false → cs ≠ [c] := by
    rintro c hc rfl
    have : c.isDigit = true := (Decimal.isNumeral_iff.mp h).2 c (by simp)
    simp [hc] at this
  simp [number?, hdigit 'x' (by decide), hdigit 'X' (by decide), hdigit '*' (by decide)]

theorem number?_writeWord (n : UInt64) : number? (Decimal.writeWord n) = some (some n) := by
  have hnumeral : Decimal.isNumeral (Decimal.writeWord n) = true := Decimal.isNumeral_write n.toNat
  rw [number?_numeral hnumeral, Decimal.word?_writeWord, Option.map_some]

theorem digit_or_dot_of_mem {ns : List UInt64} {c : Char} (h : c ∈ List.intercalate ['.'] (ns.map Decimal.writeWord)) :
    c.isDigit = true ∨ c = '.' := by
  rcases mem_intercalate h with h | ⟨piece, hp, h⟩
  · exact .inr (by simpa using h)
  · obtain ⟨n, -, rfl⟩ := List.mem_map.mp hp
    exact .inl (Decimal.isDigit_of_mem_writeWord h)

theorem not_mem_of_digit_or_dot {cs : List Char} (h : ∀ c ∈ cs, c.isDigit = true ∨ c = '.') {d : Char}
    (hdigit : d.isDigit = false) (hdot : d ≠ '.') : d ∉ cs := by
  intro hd
  rcases h d hd with hd | hd
  · simp [hdigit] at hd
  · exact hdot hd

/-- Pieces that are numbers stand in the text of these numbers. -/
theorem splitOn_eq_numbers {cs : List Char} {ns : List UInt64} (h : ns ≠ []) :
    List.splitOn '.' cs = ns.map Decimal.writeWord ↔ cs = List.intercalate ['.'] (ns.map Decimal.writeWord) := by
  constructor
  · intro hs
    rw [← hs, List.intercalate_splitOn]
  · rintro rfl
    refine List.splitOn_intercalate '.' (fun piece hp hc => ?_) (by simpa using h)
    obtain ⟨n, -, rfl⟩ := List.mem_map.mp hp
    exact absurd (Decimal.isDigit_of_mem_writeWord hc) (by decide)

/-- Components that are numbers stand in the text of these numbers. -/
theorem forall₂_number? {core : List Char} {ns : List UInt64} (h : ns ≠ []) :
    List.Forall₂ (fun part n => number? part = some n) (List.splitOn '.' core) (ns.map some) ↔
      core = List.intercalate ['.'] (ns.map Decimal.writeWord) := by
  have hnumber : ∀ part n, number? part = some (some n) ↔ part = Decimal.writeWord n := by
    intro part n
    constructor
    · exact number?_eq_some_some
    · rintro rfl
      exact number?_writeWord n
  rw [← splitOn_eq_numbers h, ← List.forall₂_eq_eq_eq, List.forall₂_map_right_iff, List.forall₂_map_right_iff]
  simp only [hnumber]

/-- A text read as a full version is that version as it is written, between
signs in front and build metadata behind. -/
theorem read?_full {cs : List Char} {v : Version} (h : read? cs = some (.full v)) :
    ∃ lead pre build, cs = lead ++ v.core.text ++ optional '-' pre ++ optional '+' build ∧
      (∀ c ∈ lead, c = 'v' ∨ c = '=') ∧ pre.getD [] = Identifier.listText v.pre := by
  obtain ⟨lead, he, hlead⟩ := exists_lead cs
  obtain ⟨core, pre, build, numbers, ids, hb, -, -, hn, hi, -, hl, -, hp⟩ := read?_eq_some.mp h
  obtain ⟨rfl, rfl⟩ := ofNumbers_eq_full hl hp
  have hcore : core = v.core.text :=
    (forall₂_number? (show [v.core.major, v.core.minor, v.core.patch] ≠ [] by simp)).mp hn
  refine ⟨lead, pre, build, ?_, hlead, Identifier.eq_listText_of_list? hi⟩
  rw [← hcore]
  simpa [hb] using he

/-- The text holds a version as it is written: in front of it are only signs,
behind it at most build metadata. -/
def Writes (cs : List Char) (v : Version) : Prop :=
  ∃ lead build, cs = lead ++ v.text ++ build ∧
    (∀ c ∈ lead, c ∈ ['v', '=', '<', '>', '~', '^']) ∧ (build = [] ∨ build.head? = some '+')

theorem writes_of_read? {cs : List Char} {v : Version} (h : read? cs = some (.full v)) (hv : v.pre ≠ []) :
    Writes cs v := by
  obtain ⟨lead, pre, build, rfl, hlead, hpre⟩ := read?_full h
  refine ⟨lead, optional '+' build, ?_, fun c hc => ?_, ?_⟩
  · cases pre with
    | none =>
      have : Identifier.listText v.pre ≠ [] := Identifier.listText_ne_nil hv
      exact absurd hpre.symm this
    | some text =>
      have : v.pre.isEmpty = false := by simpa using hv
      simp only [Option.getD_some] at hpre
      simp [Version.text, this, optional, hpre]
  · rcases hlead c hc with rfl | rfl <;> simp
  · cases build <;> simp [optional]

end Partial

end VersionPick
