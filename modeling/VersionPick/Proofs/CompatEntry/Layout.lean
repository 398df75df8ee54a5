/-
The layout of compat entries. `Relaid` is a change at one place: blanks for
other blanks, blanks at the ends of a clause, blanks between a sign and the
digit behind it, and the mathematical signs for the plain ones. No such change,
nor any number of them one after the other, makes a difference to what an entry
is read as (`range?_of_relaid`).

A change leaves the tidy form of every clause as it is (`Relaid.map_tidy`).
The place where it is made belongs to one clause (`exists_clause`), and there a
word that ends with a sign takes in the next one if that starts with a digit,
so it does not matter whether the two were one word before (`layOut_behind`).
-/
import VersionPick.Proofs.CompatEntry.Clause
import Mathlib.Logic.Relation

namespace VersionPick.CompatEntry

open Text

/-- A place where a clause starts. -/
def StartsClause (front : List Char) : Prop := front = [] ∨ ∃ clauses, front = clauses ++ [',']

/-- A place where a clause ends. -/
def EndsClause (behind : List Char) : Prop := behind = [] ∨ ∃ clauses, behind = ',' :: clauses

/-- The signs that blanks may part from their version. -/
def looseSigns : List (List Char) := [['>', '='], ['>'], ['<']]

/-- A change of layout at one place of an entry. -/
inductive Relaid : List Char → List Char → Prop
  /-- Blanks for other blanks. -/
  | blanks {run run' : List Char} (front behind : List Char) : IsBlankRun run → IsBlankRun run' →
    Relaid (front ++ run ++ behind) (front ++ run' ++ behind)
  /-- Blanks in front of a clause, or none. -/
  | atStart {front run : List Char} (behind : List Char) : StartsClause front → IsBlankRun run →
    Relaid (front ++ run ++ behind) (front ++ behind)
  /-- Blanks behind a clause, or none. -/
  | atEnd {run behind : List Char} (front : List Char) : EndsClause behind → IsBlankRun run →
    Relaid (front ++ run ++ behind) (front ++ behind)
  /-- Blanks between a sign and a digit, or none. -/
  | behindSign {sign run : List Char} {d : Char} (front behind : List Char) : sign ∈ looseSigns → IsBlankRun run →
    d.isDigit = true → Relaid (front ++ (sign ++ run ++ [d]) ++ behind) (front ++ (sign ++ [d]) ++ behind)
  /-- The sign `≥`, or `>=`. -/
  | atLeast (front behind : List Char) : Relaid (front ++ ['≥'] ++ behind) (front ++ ['>', '='] ++ behind)
  /-- The sign `≤`, or `<=`. -/
  | atMost (front behind : List Char) : Relaid (front ++ ['≤'] ++ behind) (front ++ ['<', '='] ++ behind)

/-! ## One clause -/

theorem plainSigns_append (cs ds : List Char) : plainSigns (cs ++ ds) = plainSigns cs ++ plainSigns ds := by
  simp [plainSigns, replace]

theorem plainSigns_of_not_mem {cs : List Char} (hge : '≥' ∉ cs) (hle : '≤' ∉ cs) : plainSigns cs = cs := by
  rw [plainSigns, replace_of_not_mem _ hge, replace_of_not_mem _ hle]

theorem plainSigns_blanks {run : List Char} (h : ∀ c ∈ run, isBlank c = true) : plainSigns run = run :=
  plainSigns_of_not_mem (fun hc => absurd (h _ hc) (by decide)) fun hc => absurd (h _ hc) (by decide)

theorem tidy_blanks {run : List Char} (h : IsBlankRun run) (cs ds : List Char) :
    tidy (cs ++ run ++ ds) = layOut (words (plainSigns cs) ++ words (plainSigns ds)) := by
  rw [tidy, plainSigns_append, plainSigns_append, plainSigns_blanks h.2, words_append_run h]

theorem tidy_atStart {run : List Char} (h : IsBlankRun run) (ds : List Char) : tidy (run ++ ds) = tidy ds := by
  rw [← List.nil_append run, tidy_blanks h, tidy]
  rfl

theorem tidy_atEnd {run : List Char} (h : IsBlankRun run) (cs : List Char) : tidy (cs ++ run) = tidy cs := by
  rw [← List.append_nil (cs ++ run), tidy_blanks h, tidy]
  simp [plainSigns, replace, words_nil]

theorem endsWithSign_iff {word : List Char} : endsWithSign word = true ↔ ∃ sign ∈ looseSigns, sign <:+ word := by
  simp only [endsWithSign, looseSigns, ← List.reverse_prefix, List.exists_mem_cons_iff, List.not_mem_nil, false_and,
    exists_false, or_false]
  split
  next hback => simp [hback]
  next hback => simp [hback]
  next hback => simp [hback]
  next hgt hlt hge =>
    simp only [Bool.false_eq_true, false_iff, not_or]
    exact ⟨fun ⟨t, h⟩ => hge t h.symm, fun ⟨t, h⟩ => hgt t h.symm, fun ⟨t, h⟩ => hlt t h.symm⟩

theorem digit_not_mem_sign {d : Char} (hd : d.isDigit = true) {sign : List Char} (h : sign ∈ looseSigns) :
    d ∉ sign := by
  intro hm
  have hall : (looseSigns.all fun sign => sign.all fun c => !c.isDigit) = true := by decide
  have := List.all_eq_true.mp (List.all_eq_true.mp hall sign h) d hm
  simp [hd] at this

/-- Whether a word ends with a sign is told by what stands behind a digit. -/
theorem endsWithSign_append {d : Char} (hd : d.isDigit = true) (word rest : List Char) :
    endsWithSign (word ++ d :: rest) = endsWithSign (d :: rest) := by
  rw [Bool.eq_iff_iff, endsWithSign_iff, endsWithSign_iff]
  have hrest : d :: rest <:+ word ++ d :: rest := List.suffix_append word (d :: rest)
  constructor
  · rintro ⟨sign, hs, h⟩
    refine ⟨sign, hs, (List.suffix_or_suffix_of_suffix h hrest).resolve_right fun hlong => ?_⟩
    exact digit_not_mem_sign hd hs (hlong.subset List.mem_cons_self)
  · rintro ⟨sign, hs, h⟩
    exact ⟨sign, hs, h.trans hrest⟩

theorem layOut_cons_cons (word next : List Char) (ws : List (List Char)) : layOut (word :: next :: ws) =
    if endsWithSign word && startsWithDigit next then word ++ layOut (next :: ws)
    else word ++ ' ' :: layOut (next :: ws) := rfl

theorem layOut_behind {word : List Char} {d : Char} (hword : endsWithSign word = true) (hd : d.isDigit = true)
    (next : List Char) (more : List (List Char)) : ∀ ws : List (List Char),
      layOut (ws ++ word :: (d :: next) :: more) = layOut (ws ++ (word ++ d :: next) :: more)
  | [] => by
    have hnext : startsWithDigit (d :: next) = true := by simp [startsWithDigit, isDecimalDigit, hd]
    rw [List.nil_append, List.nil_append, layOut_cons_cons, hword, hnext]
    cases more with
    | nil => rfl
    | cons m more =>
      rw [layOut_cons_cons, layOut_cons_cons, endsWithSign_append hd]
      cases endsWithSign (d :: next) && startsWithDigit m <;> simp
  | [w] => by
    have hhead : startsWithDigit (word ++ d :: next) = startsWithDigit word := by
      cases word with
      | nil => simp [endsWithSign] at hword
      | cons c word => rfl
    have ih := layOut_behind hword hd next more []
    simp only [List.cons_append, List.nil_append] at ih ⊢
    rw [layOut_cons_cons w, layOut_cons_cons w, ih, hhead]
  | w :: v :: ws => by
    have ih := layOut_behind hword hd next more (v :: ws)
    simp only [List.cons_append] at ih ⊢
    rw [layOut_cons_cons, layOut_cons_cons, ih]

theorem plainSigns_digit {d : Char} (hd : d.isDigit = true) : plainSigns [d] = [d] := by
  have hne : ∀ {c : Char}, c.isDigit = false → c ∉ [d] := by
    intro c hc hm
    simp [← List.mem_singleton.mp hm, hc] at hd
  exact plainSigns_of_not_mem (hne (by decide)) (hne (by decide))

theorem plain_of_looseSign {sign : List Char} (h : sign ∈ looseSigns) : plainSigns sign = sign ∧ IsWord sign := by
  simp only [looseSigns, List.mem_cons, List.not_mem_nil, or_false] at h
  rcases h with rfl | rfl | rfl <;> exact ⟨by decide, by simp, by simp [isBlank]⟩

/-- A sign and the digit behind it are put together, whatever blanks stand
between them. -/
theorem tidy_behindSign {sign run : List Char} {d : Char} (hs : sign ∈ looseSigns) (hrun : IsBlankRun run)
    (hd : d.isDigit = true) (cs ds : List Char) :
    tidy (cs ++ (sign ++ run ++ [d]) ++ ds) = tidy (cs ++ (sign ++ [d]) ++ ds) := by
  obtain ⟨hplain, hne, hsign⟩ := plain_of_looseSign hs
  have hblank : isBlank d = false :=
    Partial.not_isBlank_of_isPartialChar (by simp [Partial.isPartialChar, Char.isAlphanum, hd])
  obtain ⟨front, last, first, more, hlead, hbehind, hboth⟩ :=
    exists_words_append hne hsign hblank (plainSigns cs) (plainSigns ds)
  have hapart : words (plainSigns (cs ++ (sign ++ run ++ [d]) ++ ds)) =
      front ++ (last ++ sign) :: (d :: first) :: more := by
    have hcut := words_append_run hrun (plainSigns cs ++ sign) (d :: plainSigns ds)
    simp only [plainSigns_append, hplain, plainSigns_blanks hrun.2, plainSigns_digit hd]
    simp only [List.append_assoc, List.cons_append, List.nil_append] at hcut hlead ⊢
    rw [hcut, hlead, hbehind, List.append_assoc, List.singleton_append]
  have htogether : words (plainSigns (cs ++ (sign ++ [d]) ++ ds)) = front ++ (last ++ sign ++ d :: first) :: more := by
    simp only [plainSigns_append, hplain, plainSigns_digit hd]
    simpa only [List.append_assoc, List.cons_append, List.nil_append] using hboth
  rw [tidy, tidy, hapart, htogether, layOut_behind (endsWithSign_iff.mpr ⟨sign, hs, List.suffix_append last sign⟩) hd]

theorem tidy_sign {sign plain : List Char} (h : plainSigns sign = plainSigns plain) (cs ds : List Char) :
    tidy (cs ++ sign ++ ds) = tidy (cs ++ plain ++ ds) := by
  simp only [tidy, plainSigns_append, h]

/-! ## Entries -/

/-- A place in an entry belongs to one clause, whatever stands there, as long
as it has no comma. At the start of a clause nothing of it stands in front, and
at its end nothing behind. -/
theorem exists_clause (front behind : List Char) : ∃ before last first after,
    (∀ cs : List Char, ',' ∉ cs → List.splitOn ',' (front ++ cs ++ behind) = before ++ (last ++ cs ++ first) :: after) ∧
      (StartsClause front → last = []) ∧ (EndsClause behind → first = []) := by
  obtain ⟨before, last, hfront, hrest⟩ := exists_splitOnP_append (· == ',') front
  obtain ⟨first, after, hbehind⟩ := List.exists_cons_of_ne_nil (List.splitOnP_ne_nil (· == ',') behind)
  refine ⟨before, last, first, after, fun cs hcs => ?_, fun h => ?_, fun h => ?_⟩
  · have hcomma : ∀ c ∈ cs, (c == ',') = false := fun c hc => beq_eq_false_iff_ne.mpr fun he => hcs (he ▸ hc)
    rw [List.append_assoc, List.splitOn_eq_splitOnP, hrest (splitOnP_append_of_forall hbehind hcomma),
      List.append_assoc]
  · have hlast : (List.splitOnP (· == ',') front).getLast? = some [] := by
      rcases h with rfl | ⟨clauses, rfl⟩
      · rfl
      · rw [List.splitOnP_append_cons _ _ (by simp)]
        simp
    simpa [hfront] using hlast
  · have hfirst : (List.splitOnP (· == ',') behind).head? = some [] := by
      rcases h with rfl | ⟨clauses, rfl⟩ <;> simp [List.splitOnP_cons_eq_if_modifyHead]
    simpa [hbehind] using hfirst

/-- What is put in the place of something else leaves the tidy form of every
clause, if it does so for the clause that it is put into. -/
theorem map_tidy_of {cs ds front behind : List Char} (hcs : ',' ∉ cs) (hds : ',' ∉ ds)
    (h : ∀ last first, (StartsClause front → last = []) → (EndsClause behind → first = []) →
      tidy (last ++ cs ++ first) = tidy (last ++ ds ++ first)) :
    (List.splitOn ',' (front ++ cs ++ behind)).map tidy = (List.splitOn ',' (front ++ ds ++ behind)).map tidy := by
  obtain ⟨before, last, first, after, hsplit, hlast, hfirst⟩ := exists_clause front behind
  rw [hsplit cs hcs, hsplit ds hds, List.map_append, List.map_append, List.map_cons, List.map_cons,
    h last first hlast hfirst]

/-- What is left out, likewise. -/
theorem map_tidy_without {cs front behind : List Char} (hcs : ',' ∉ cs)
    (h : ∀ last first, (StartsClause front → last = []) → (EndsClause behind → first = []) →
      tidy (last ++ cs ++ first) = tidy (last ++ first)) :
    (List.splitOn ',' (front ++ cs ++ behind)).map tidy = (List.splitOn ',' (front ++ behind)).map tidy := by
  have hnil : (List.splitOn ',' (front ++ cs ++ behind)).map tidy =
      (List.splitOn ',' (front ++ [] ++ behind)).map tidy := by
    refine map_tidy_of hcs List.not_mem_nil fun last first hlast hfirst => ?_
    rw [List.append_nil, h last first hlast hfirst]
  rwa [List.append_nil] at hnil

theorem comma_not_mem_run {run : List Char} (h : IsBlankRun run) : ',' ∉ run :=
  fun hc => absurd (h.2 _ hc) (by decide)

theorem comma_not_mem_sign {sign : List Char} (h : sign ∈ looseSigns) : ',' ∉ sign :=
  (by decide : ∀ sign ∈ looseSigns, ',' ∉ sign) sign h

/-- **One change of layout** leaves the tidy form of every clause. -/
theorem Relaid.map_tidy {raw raw' : List Char} (h : Relaid raw raw') :
    (List.splitOn ',' raw).map tidy = (List.splitOn ',' raw').map tidy := by
  cases h with
  | blanks front behind hrun hrun' =>
    refine map_tidy_of (comma_not_mem_run hrun) (comma_not_mem_run hrun') fun last first _ _ => ?_
    rw [tidy_blanks hrun, tidy_blanks hrun']
  | atStart behind hstart hrun =>
    refine map_tidy_without (comma_not_mem_run hrun) fun last first hlast _ => ?_
    rw [hlast hstart]
    exact tidy_atStart hrun first
  | atEnd front hend hrun =>
    refine map_tidy_without (comma_not_mem_run hrun) fun last first _ hfirst => ?_
    rw [hfirst hend, List.append_nil, List.append_nil]
    exact tidy_atEnd hrun last
  | @behindSign sign run d front behind hs hrun hd =>
    have hdigit : ',' ∉ [d] := by
      intro hm
      simp [← List.mem_singleton.mp hm] at hd
    refine map_tidy_of ?_ ?_ fun last first _ _ => tidy_behindSign hs hrun hd last first
    · simp only [List.mem_append, not_or]
      exact ⟨⟨comma_not_mem_sign hs, comma_not_mem_run hrun⟩, hdigit⟩
    · simp only [List.mem_append, not_or]
      exact ⟨comma_not_mem_sign hs, hdigit⟩
  | atLeast front behind =>
    exact map_tidy_of (by decide) (by decide) fun last first _ _ => tidy_sign (by decide) last first
  | atMost front behind =>
    exact map_tidy_of (by decide) (by decide) fun last first _ _ => tidy_sign (by decide) last first

/-- Any number of changes of layout. -/
theorem map_tidy_of_relaid {raw raw' : List Char} (h : Relation.EqvGen Relaid raw raw') :
    (List.splitOn ',' raw).map tidy = (List.splitOn ',' raw').map tidy := by
  induction h with
  | rel raw raw' hstep => exact hstep.map_tidy
  | refl raw => rfl
  | symm raw raw' _ ih => exact ih.symm
  | trans raw raw' raw'' _ _ ih ih' => exact ih.trans ih'

/-- Of a clause only its tidy form counts. -/
theorem clause?_congr {clause clause' : List Char} (h : tidy clause = tidy clause') :
    clause? clause = clause? clause' := by
  simp only [tidy] at h
  simp only [clause?, h]

theorem read?_congr {raw raw' : List Char} (h : (List.splitOn ',' raw).map tidy = (List.splitOn ',' raw').map tidy) :
    read? raw = read? raw' := by
  rw [read?, read?, mapM_eq_of_map_eq (fun _ _ => clause?_congr) h]

/-- **Layout makes no difference.** Entries that changes of layout lead from
one to the other are the same range, or none of them is one. -/
theorem range?_of_relaid {raw raw' : String} (h : Relation.EqvGen Relaid raw.toList raw'.toList) :
    range? raw = range? raw' :=
  read?_congr (map_tidy_of_relaid h)

/-- Blanks at both ends of a clause, behind a sign and around a hyphen, and a
sign in its mathematical form. -/
theorem range?_of_relaid_two :
    Relation.EqvGen Relaid " ≥1.2,1\t- 2".toList ">=  1.2 ,1 \n- 2".toList ∧
    range? " ≥1.2,1\t- 2" = some ⟨[Partial.atLeast (.minor 1 2), Partial.upTo (.major 1) (.major 2)]⟩ ∧
    range? ">=  1.2 ,1 \n- 2" = range? " ≥1.2,1\t- 2" := by
  have hrun : ∀ run ∈ [[' '], [' ', ' '], ['\t'], [' ', '\n']], IsBlankRun run := by
    simp [IsBlankRun, isBlank]
  have hstart : Relaid " ≥1.2,1\t- 2".toList "≥1.2,1\t- 2".toList :=
    .atStart "≥1.2,1\t- 2".toList (.inl rfl) (hrun [' '] (by simp))
  have hsign : Relaid "≥1.2,1\t- 2".toList ">=1.2,1\t- 2".toList := .atLeast [] "1.2,1\t- 2".toList
  have hbehind : Relaid ">=  1.2,1\t- 2".toList ">=1.2,1\t- 2".toList :=
    .behindSign [] ".2,1\t- 2".toList (show ['>', '='] ∈ looseSigns by decide) (hrun [' ', ' '] (by simp))
      (show '1'.isDigit = true by decide)
  have hend : Relaid ">=  1.2 ,1\t- 2".toList ">=  1.2,1\t- 2".toList :=
    .atEnd ">=  1.2".toList (.inr ⟨"1\t- 2".toList, rfl⟩) (hrun [' '] (by simp))
  have hblanks : Relaid ">=  1.2 ,1\t- 2".toList ">=  1.2 ,1 \n- 2".toList :=
    .blanks ">=  1.2 ,1".toList "- 2".toList (hrun ['\t'] (by simp)) (hrun [' ', '\n'] (by simp))
  have h : Relation.EqvGen Relaid " ≥1.2,1\t- 2".toList ">=  1.2 ,1 \n- 2".toList :=
    .trans _ _ _ (.rel _ _ hstart) (.trans _ _ _ (.rel _ _ hsign)
      (.trans _ _ _ (.symm _ _ (.rel _ _ hbehind)) (.trans _ _ _ (.symm _ _ (.rel _ _ hend)) (.rel _ _ hblanks))))
  exact ⟨h, by decide, (range?_of_relaid h).symm⟩

end VersionPick.CompatEntry
