/-
The natural order on texts. Texts are compared chunk by chunk, and the order on
chunks is linear up to equality, so that on texts is too; two texts of one
place in it are the same (`naturalCompare_eq_eq`), for a run of digits is known
by its number and its length.

`Precedes` says the order without chunks: the first place where two texts
differ decides, and two runs of digits differ as numbers do, or else in their
leading zeros.
-/
import VersionPick.Text.Natural
import VersionPick.Proofs.Text.Decimal

namespace VersionPick.Text

/-! ## Digit runs -/

/-- A run of digits that ends where `rest` begins. -/
structure IsRun (run rest : List Char) : Prop where
  ne_nil : run ≠ []
  isDigit : ∀ c ∈ run, c.isDigit = true
  ends : ∀ c ∈ rest.head?, c.isDigit = false

theorem isRun_takeWhile {c : Char} (hc : c.isDigit = true) (cs : List Char) :
    IsRun (c :: cs.takeWhile Char.isDigit) (cs.dropWhile Char.isDigit) where
  ne_nil := List.cons_ne_nil _ _
  isDigit d hd := by
    rcases List.mem_cons.mp hd with rfl | hd
    · exact hc
    · exact List.mem_takeWhile_imp hd
  ends d hd := by
    have h := List.head?_dropWhile_not Char.isDigit cs
    rw [Option.mem_def] at hd
    rw [hd] at h
    exact h

theorem cons_eq_run_append (c : Char) (cs : List Char) :
    c :: cs = (c :: cs.takeWhile Char.isDigit) ++ cs.dropWhile Char.isDigit := by
  rw [List.cons_append, List.takeWhile_append_dropWhile]

theorem exists_run {c : Char} (hc : c.isDigit = true) (cs : List Char) :
    ∃ run rest, c :: cs = run ++ rest ∧ IsRun run rest ∧ rest.length ≤ cs.length :=
  ⟨_, _, cons_eq_run_append c cs, isRun_takeWhile hc cs, List.length_dropWhile_le Char.isDigit cs⟩

/-- A run of digits is known by its number and its length. -/
theorem run_inj {ds es : List Char} (hd : ∀ c ∈ ds, c.isDigit = true) (he : ∀ c ∈ es, c.isDigit = true)
    (hv : Decimal.value ds = Decimal.value es) (hw : ds.length = es.length) : ds = es := by
  have hcompare := Decimal.compare_of_length_eq hw hd he
  rw [hv, Std.LawfulEqOrd.compare_eq_iff_eq.mpr rfl] at hcompare
  exact Std.LawfulEqOrd.eq_of_compare hcompare

theorem chunksAfter_digits : ∀ {ds : List Char} (read cs : List Char), (∀ c ∈ ds, c.isDigit = true) →
    chunksAfter read (ds ++ cs) = chunksAfter (read ++ ds) cs
  | [], read, cs, _ => by simp
  | d :: ds, read, cs, h => by
    obtain ⟨hd, hds⟩ := List.forall_mem_cons.mp h
    rw [List.cons_append, chunksAfter, if_pos hd, chunksAfter_digits _ _ hds, List.append_assoc,
      List.singleton_append]

theorem chunks_nil : chunks [] = [] := rfl

theorem chunks_letter {c : Char} (hc : c.isDigit = false) (cs : List Char) :
    chunks (c :: cs) = .letter c :: chunks cs := by
  simp [chunks, chunksAfter, hc, flushDigits]

theorem chunks_run {run rest : List Char} (h : IsRun run rest) :
    chunks (run ++ rest) = .number (Decimal.value run) run.length :: chunks rest := by
  have hflush : flushDigits run = [.number (Decimal.value run) run.length] := by
    rw [flushDigits, if_neg (by simp [h.ne_nil])]
  rw [chunks, chunksAfter_digits _ _ h.isDigit, List.nil_append]
  cases rest with
  | nil => rw [chunksAfter, hflush, chunks_nil]
  | cons c cs =>
    have hc : c.isDigit = false := h.ends c rfl
    rw [chunksAfter, if_neg (by simp [hc]), hflush, List.singleton_append, chunks_letter hc, chunks]

/-! ## The order on chunks -/

theorem char_lt_iff {c d : Char} : c < d ↔ c.toNat < d.toNat := Iff.rfl

namespace Chunk

/-- Numbers come between the characters in front of the digits and those
behind them. -/
def rank : Chunk → Nat
  | .letter c => if c < '0' then 0 else 2
  | .number _ _ => 1

/-- The value of a number, and the code point of another character. -/
def worth : Chunk → Nat
  | .letter c => c.toNat
  | .number value _ => value

/-- The length of a number; it says nothing about other characters. -/
def width : Chunk → Nat
  | .letter _ => 0
  | .number _ width => width

theorem compare_eq (a b : Chunk) : Ord.compare a b =
    compareLex (compareOn rank) (compareLex (compareOn worth) (compareOn width)) a b := by
  change Chunk.compare a b = _
  cases a with
  | number v w =>
    cases b with
    | number v' w' => simp [Chunk.compare, compareLex, compareOn, rank, worth, width]
    | letter c =>
      simp only [Chunk.compare, compareLex, compareOn, rank]
      split <;> rfl
  | letter c =>
    cases b with
    | number v w =>
      simp only [Chunk.compare, compareLex, compareOn, rank]
      split <;> rfl
    | letter d =>
      simp only [Chunk.compare, compareLex, compareOn, rank, worth, width, Decimal.compare_char, char_lt_iff]
      split <;> split
      next => simp
      next => rw [Nat.compare_eq_lt.mpr (by omega)]; rfl
      next => rw [Nat.compare_eq_gt.mpr (by omega)]; rfl
      next => simp

instance : Std.TransOrd Chunk where
  eq_swap {a b} := by rw [compare_eq, compare_eq]; exact Std.OrientedCmp.eq_swap
  isLE_trans {a b c} h₁ h₂ := by
    rw [compare_eq] at h₁ h₂ ⊢
    exact Std.TransCmp.isLE_trans h₁ h₂

/-- A number stands to another character as each of its digits does. -/
theorem compare_number_letter {v w : Nat} {c d : Char} (hc : c.isDigit = true) (hd : d.isDigit = false) :
    Ord.compare (number v w) (letter d) = Ord.compare c d := by
  have hdigit := Decimal.digit_toNat hc
  have hother : ¬ (48 ≤ d.toNat ∧ d.toNat ≤ 57) := fun h => by simp [Char.isDigit_iff_toNat.mpr h] at hd
  have hzero : '0'.toNat = 48 := rfl
  change (if d < '0' then Ordering.gt else .lt) = _
  rw [Decimal.compare_char]
  split
  next h => rw [char_lt_iff] at h; rw [Nat.compare_eq_gt.mpr (by omega)]
  next h => rw [char_lt_iff] at h; rw [Nat.compare_eq_lt.mpr (by omega)]

end Chunk

/-! ## The order on texts -/

variable {cs ds es : List Char}

theorem naturalCompare_swap (cs ds : List Char) : naturalCompare cs ds = (naturalCompare ds cs).swap :=
  Std.OrientedOrd.eq_swap

theorem isLE_naturalCompare_trans (h : (naturalCompare cs ds).isLE) (h' : (naturalCompare ds es).isLE) :
    (naturalCompare cs es).isLE :=
  Std.TransOrd.isLE_trans h h'

theorem then_of_ne_eq {o : Ordering} (h : o ≠ .eq) (o' : Ordering) : o.then o' = o := by
  cases o with
  | eq => exact absurd rfl h
  | lt => rfl
  | gt => rfl

theorem compare_ne_eq {c d : Char} (hc : c.isDigit = true) (hd : d.isDigit = false) : compare c d ≠ .eq := by
  intro h
  rw [Std.LawfulEqOrd.eq_of_compare h, hd] at hc
  cases hc

theorem naturalCompare_digit_letter {c d : Char} (hc : c.isDigit = true) (hd : d.isDigit = false)
    (cs ds : List Char) : naturalCompare (c :: cs) (d :: ds) = compare c d := by
  obtain ⟨run, rest, he, hrun, -⟩ := exists_run hc cs
  rw [naturalCompare, he, chunks_run hrun, chunks_letter hd, List.compare_cons_cons,
    Chunk.compare_number_letter hc hd, then_of_ne_eq (compare_ne_eq hc hd)]

/-- Where at most one of two characters is a digit, they compare by code
point. -/
theorem naturalCompare_cons {c d : Char} (h : ¬ (c.isDigit = true ∧ d.isDigit = true)) (cs ds : List Char) :
    naturalCompare (c :: cs) (d :: ds) = (compare c d).then (naturalCompare cs ds) := by
  cases hc : c.isDigit with
  | true =>
    have hd : d.isDigit = false := by simpa [hc] using h
    rw [naturalCompare_digit_letter hc hd, then_of_ne_eq (compare_ne_eq hc hd)]
  | false =>
    cases hd : d.isDigit with
    | true =>
      have hne : compare c d ≠ .eq := fun h => compare_ne_eq hd hc (Std.OrientedCmp.eq_comm.mp h)
      rw [naturalCompare_swap, naturalCompare_digit_letter hd hc, ← Std.OrientedOrd.eq_swap, then_of_ne_eq hne]
    | false =>
      rw [naturalCompare, chunks_letter hc, chunks_letter hd, List.compare_cons_cons]
      rfl

/-- Runs of digits compare by number and then by length. -/
theorem naturalCompare_run {run run' : List Char} (hrun : IsRun run cs) (hrun' : IsRun run' ds) :
    naturalCompare (run ++ cs) (run' ++ ds) =
      ((compare (Decimal.value run) (Decimal.value run')).then (compare run.length run'.length)).then
        (naturalCompare cs ds) := by
  rw [naturalCompare, chunks_run hrun, chunks_run hrun', List.compare_cons_cons]
  rfl

/-- One text comes before another, by the first place where they differ. -/
inductive Precedes : List Char → List Char → Prop
  | nil {d : Char} {ds : List Char} : Precedes [] (d :: ds)
  /-- Characters that are not both digits go by their code points. -/
  | letter {c d : Char} {cs ds : List Char} (hdigit : ¬ (c.isDigit = true ∧ d.isDigit = true)) (h : c < d) :
    Precedes (c :: cs) (d :: ds)
  | sameLetter {c : Char} {cs ds : List Char} (hc : c.isDigit = false) (h : Precedes cs ds) :
    Precedes (c :: cs) (c :: ds)
  /-- Of two runs that of the smaller number goes first, and of one number the
  shorter run. -/
  | run {run run' cs ds : List Char} (hrun : IsRun run cs) (hrun' : IsRun run' ds)
    (h : Decimal.value run < Decimal.value run' ∨
      Decimal.value run = Decimal.value run' ∧ run.length < run'.length) :
    Precedes (run ++ cs) (run' ++ ds)
  | sameRun {run cs ds : List Char} (hrun : IsRun run cs) (hrun' : IsRun run ds) (h : Precedes cs ds) :
    Precedes (run ++ cs) (run ++ ds)

theorem naturalCompare_nil_cons (d : Char) (ds : List Char) : naturalCompare [] (d :: ds) = .lt := by
  cases hd : d.isDigit with
  | false => rw [naturalCompare, chunks_nil, chunks_letter hd, List.compare_nil_cons]
  | true =>
    obtain ⟨run, rest, he, hrun, -⟩ := exists_run hd ds
    rw [naturalCompare, he, chunks_nil, chunks_run hrun, List.compare_nil_cons]

theorem naturalCompare_cons_nil (c : Char) (cs : List Char) : naturalCompare (c :: cs) [] = .gt := by
  rw [naturalCompare_swap, naturalCompare_nil_cons]
  rfl

theorem eq_of_naturalCompare : ∀ {cs ds : List Char}, naturalCompare cs ds = .eq → cs = ds
  | [], [], _ => rfl
  | [], d :: ds, h => by simp [naturalCompare_nil_cons] at h
  | c :: cs, [], h => by simp [naturalCompare_cons_nil] at h
  | c :: cs, d :: ds, h => by
    by_cases hdigit : c.isDigit = true ∧ d.isDigit = true
    · obtain ⟨run, rest, he, hrun, hlen⟩ := exists_run hdigit.1 cs
      obtain ⟨run', rest', he', hrun', -⟩ := exists_run hdigit.2 ds
      rw [he, he', naturalCompare_run hrun hrun', Ordering.then_eq_eq, Ordering.then_eq_eq, Nat.compare_eq_eq,
        Nat.compare_eq_eq] at h
      obtain ⟨⟨hvalue, hwidth⟩, hrest⟩ := h
      rw [he, he', run_inj hrun.isDigit hrun'.isDigit hvalue hwidth, eq_of_naturalCompare hrest]
    · rw [naturalCompare_cons hdigit, Ordering.then_eq_eq] at h
      rw [Std.LawfulEqOrd.eq_of_compare h.1, eq_of_naturalCompare h.2]
  termination_by cs => cs.length

/-- Only a text itself stands where it stands. -/
theorem naturalCompare_eq_eq : naturalCompare cs ds = .eq ↔ cs = ds := by
  refine ⟨eq_of_naturalCompare, ?_⟩
  rintro rfl
  exact Std.ReflOrd.compare_self

theorem precedes_of_naturalCompare : ∀ {cs ds : List Char}, naturalCompare cs ds = .lt → Precedes cs ds
  | [], [], h => by simp [naturalCompare] at h
  | [], d :: ds, _ => .nil
  | c :: cs, [], h => by simp [naturalCompare_cons_nil] at h
  | c :: cs, d :: ds, h => by
    by_cases hdigit : c.isDigit = true ∧ d.isDigit = true
    · obtain ⟨run, rest, he, hrun, hlen⟩ := exists_run hdigit.1 cs
      obtain ⟨run', rest', he', hrun', -⟩ := exists_run hdigit.2 ds
      rw [he, he', naturalCompare_run hrun hrun', Ordering.then_eq_lt, Ordering.then_eq_lt, Ordering.then_eq_eq,
        Nat.compare_eq_lt, Nat.compare_eq_lt, Nat.compare_eq_eq, Nat.compare_eq_eq] at h
      rw [he, he']
      rcases h with h | ⟨⟨hvalue, hwidth⟩, hrest⟩
      · exact .run hrun hrun' h
      · obtain rfl := run_inj hrun.isDigit hrun'.isDigit hvalue hwidth
        exact .sameRun hrun hrun' (precedes_of_naturalCompare hrest)
    · rw [naturalCompare_cons hdigit, Ordering.then_eq_lt] at h
      rcases h with h | ⟨h, hrest⟩
      · exact .letter hdigit (compareOfLessAndEq_eq_lt.mp h)
      · obtain rfl := Std.LawfulEqOrd.eq_of_compare h
        exact .sameLetter (by simpa using hdigit) (precedes_of_naturalCompare hrest)
  termination_by cs => cs.length

/-- The order by chunks is that by the first difference. -/
theorem naturalCompare_eq_lt : naturalCompare cs ds = .lt ↔ Precedes cs ds := by
  refine ⟨precedes_of_naturalCompare, fun h => ?_⟩
  induction h with
  | nil => exact naturalCompare_nil_cons _ _
  | letter hdigit h =>
    rw [naturalCompare_cons hdigit, Ordering.then_eq_lt]
    exact .inl (compareOfLessAndEq_eq_lt.mpr h)
  | sameLetter hc _ ih =>
    rw [naturalCompare_cons (by simp [hc]), ih, Std.LawfulEqOrd.compare_eq_iff_eq.mpr rfl]
    rfl
  | run hrun hrun' h =>
    rw [naturalCompare_run hrun hrun', Ordering.then_eq_lt, Ordering.then_eq_lt, Nat.compare_eq_lt,
      Nat.compare_eq_lt, Nat.compare_eq_eq]
    exact .inl h
  | sameRun hrun hrun' _ ih =>
    rw [naturalCompare_run hrun hrun', ih, Nat.compare_eq_eq.mpr rfl, Nat.compare_eq_eq.mpr rfl]
    rfl

/-! ## Sorting -/

theorem perm_naturalSort (texts : List String) : (naturalSort texts).Perm texts :=
  List.mergeSort_perm texts _

theorem isLE_naturalCompare_total (cs ds : List Char) :
    (naturalCompare cs ds).isLE = true ∨ (naturalCompare ds cs).isLE = true := by
  rw [naturalCompare_swap ds cs, Ordering.isLE_swap]
  cases naturalCompare cs ds <;> simp

theorem precedes_of_isLE (hle : (naturalCompare cs ds).isLE = true) (hne : cs ≠ ds) : Precedes cs ds := by
  rw [← naturalCompare_eq_lt]
  rcases Ordering.isLE_iff_eq_lt_or_eq_eq.mp hle with h | h
  · exact h
  · exact absurd (eq_of_naturalCompare h) hne

theorem pairwise_isLE_naturalSort (texts : List String) :
    (naturalSort texts).Pairwise fun a b => (naturalCompare a.toList b.toList).isLE = true := by
  apply List.pairwise_mergeSort
  · exact fun a b c => isLE_naturalCompare_trans
  · intro a b
    rw [Bool.or_eq_true]
    exact isLE_naturalCompare_total a.toList b.toList

/-- Texts that are all different come out in strictly increasing order. -/
theorem pairwise_naturalSort {texts : List String} (h : texts.Nodup) :
    (naturalSort texts).Pairwise fun a b => Precedes a.toList b.toList := by
  have hnodup := (perm_naturalSort texts).nodup_iff.mpr h
  exact (pairwise_isLE_naturalSort texts).imp₂
    (fun a b hle hne => precedes_of_isLE hle fun he => hne (String.toList_inj.mp he)) hnodup

theorem Precedes.asymm (h : Precedes cs ds) : ¬ Precedes ds cs := by
  intro h'
  rw [← naturalCompare_eq_lt] at h h'
  rw [naturalCompare_swap, h'] at h
  cases h

/-- Strictly increasing lists of the same texts are the same. -/
theorem eq_of_pairwise_precedes {texts texts' : List String}
    (h : texts.Pairwise fun a b => Precedes a.toList b.toList)
    (h' : texts'.Pairwise fun a b => Precedes a.toList b.toList) (hmem : ∀ text, text ∈ texts ↔ text ∈ texts') :
    texts = texts' := by
  have : Std.Asymm fun a b : String => Precedes a.toList b.toList := ⟨fun _ _ => Precedes.asymm⟩
  exact h.eq_of_mem_iff h' hmem

end VersionPick.Text
