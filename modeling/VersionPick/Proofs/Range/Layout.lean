/-
The layout of comparators. Between an operator and its version, and between the
two characters of an operator, blanks do not matter, be there any or none
(`parse_layout`). Blanks there cut the sign of an operator into pieces, and the
last piece stays with the version (`exists_words_of_spaced`). Every beginning
of a sign is a sign itself, so the pieces are put back together, and what stands
in front of a version is never taken for that of its neighbour
(`attachSigns_pieces`).
-/
import VersionPick.Proofs.Range.Reading

namespace VersionPick.Range

open Text

/-- A comparator as users write it: an operator or none, in front of a word
that may turn out to be no version. -/
structure Term where
  sign : List Char
  op : Operator
  word : List Char
  isWritten : (sign, op) ∈ written
  isWord : IsWord word
  ne_hyphen : word ≠ ['-']
  head : ∀ c ∈ word.head?, isSignChar c = false
  bars : ¬ ['|', '|'] <:+: word

/-- The texts of a sign and the word behind it, with blanks behind each
character of the sign, or none. -/
inductive Spaced : (sign word text : List Char) → Prop
  | word (word : List Char) : Spaced [] word word
  | sign {c : Char} {gap sign word text : List Char} (hgap : ∀ b ∈ gap, isBlank b = true) (h : Spaced sign word text) :
    Spaced (c :: sign) word (c :: (gap ++ text))

/-- The texts of comparators, with blanks between any two of them. -/
inductive Laid : List Term → List Char → Prop
  | nil : Laid [] []
  | single {t : Term} {text : List Char} (h : Spaced t.sign t.word text) : Laid [t] text
  | cons {t next : Term} {ts : List Term} {text run rest : List Char} (h : Spaced t.sign t.word text)
    (hrun : IsBlankRun run) (hrest : Laid (next :: ts) rest) : Laid (t :: next :: ts) (text ++ run ++ rest)

/-! ## Signs -/

/-- Every beginning of a sign is a sign. -/
theorem isSign_of_prefix {sign : List Char} {op : Operator} (h : (sign, op) ∈ written) {piece : List Char}
    (hne : piece ≠ []) (hpiece : piece <+: sign) : Operator.isSign piece = true := by
  have hall : ∀ w ∈ written, ∀ piece ∈ w.1.inits, piece ≠ [] → Operator.isSign piece = true := by decide
  exact hall _ h piece ((List.mem_inits _ _).mpr hpiece) hne

theorem not_isSign_append {sign word : List Char} (hne : word ≠ []) (hhead : ∀ c ∈ word.head?, isSignChar c = false) :
    Operator.isSign (sign ++ word) = false := by
  rw [Bool.eq_false_iff, ne_eq, isSign_iff]
  rintro ⟨w, hw, he⟩
  obtain ⟨c, cs, rfl⟩ := List.exists_cons_of_ne_nil hne
  have hc := isSignChar_of_mem_signs hw (c := c) (by simp [he])
  rw [hhead c rfl] at hc
  cases hc

theorem bar_not_mem_blanks {run : List Char} (h : ∀ b ∈ run, isBlank b = true) : '|' ∉ run :=
  fun hb => absurd (h _ hb) (by decide)

/-! ## One comparator -/

/-- The words of a comparator: the sign in pieces, the last of which stands in
front of the word. Here `lead` is what is known of the first of them. -/
theorem exists_words_of_spaced {sign word text : List Char} (h : Spaced sign word text) (hword : IsWord word)
    (hsign : ∀ c ∈ sign, isBlank c = false) (lead : List Char) (hlead : ∀ c ∈ lead, isBlank c = false) :
    ∃ pieces last, words (lead ++ text) = pieces ++ [last ++ word] ∧ (∀ piece ∈ pieces, piece ≠ []) ∧
      pieces.flatten ++ last = lead ++ sign := by
  induction h generalizing lead with
  | word word =>
    have hboth : IsWord (lead ++ word) :=
      ⟨by simp [hword.1], List.forall_mem_append.mpr ⟨hlead, hword.2⟩⟩
    exact ⟨[], lead, words_of_isWord hboth, by simp, by simp⟩
  | @sign c gap sign word text hgap _ ih =>
    obtain ⟨hc, hsign⟩ := List.forall_mem_cons.mp hsign
    have hlonger : ∀ d ∈ lead ++ [c], isBlank d = false := List.forall_mem_append.mpr ⟨hlead, by simpa using hc⟩
    by_cases hnone : gap = []
    · -- the character and what follows it are one piece
      obtain ⟨pieces, last, hwords, hpieces, hflat⟩ := ih hword hsign (lead ++ [c]) hlonger
      subst hnone
      exact ⟨pieces, last, by simpa using hwords, hpieces, by simpa using hflat⟩
    · obtain ⟨pieces, last, hwords, hpieces, hflat⟩ := ih hword hsign [] (by simp)
      have hcut : words (lead ++ c :: (gap ++ text)) = (lead ++ [c]) :: words text := by
        have hrun := words_append_run ⟨hnone, hgap⟩ (lead ++ [c]) text
        rw [words_of_isWord ⟨by simp, hlonger⟩] at hrun
        simpa using hrun
      rw [List.nil_append] at hwords hflat
      exact ⟨(lead ++ [c]) :: pieces, last, by rw [hcut, hwords]; rfl, by simpa using hpieces, by simp [hflat]⟩

/-- Bars are put next to each other neither by signs nor by blanks. -/
theorem Spaced.bars {sign word text : List Char} (h : Spaced sign word text) (hsign : '|' ∉ sign)
    (hword : ¬ ['|', '|'] <:+: word) : ¬ ['|', '|'] <:+: text := by
  induction h with
  | word word => exact hword
  | sign hgap _ ih =>
    rw [List.mem_cons, not_or] at hsign
    exact pair_not_infix_cons (Ne.symm hsign.1) (pair_not_infix_of_not_mem (ih hsign.2 hword) (bar_not_mem_blanks hgap))

/-- The pieces of a sign are put back in front of the word. -/
theorem attachSigns_pieces {sign word : List Char}
    (hsign : ∀ piece, piece ≠ [] → piece <+: sign → Operator.isSign piece = true)
    (hword : Operator.isSign (sign ++ word) = false) {last : List Char} (ws : List (List Char)) :
    ∀ {pieces : List (List Char)} {pending : List Char}, (∀ piece ∈ pieces, piece ≠ []) →
      pending ++ pieces.flatten ++ last = sign →
      attachSigns pending (pieces ++ (last ++ word) :: ws) = (sign ++ word) :: attachSigns [] ws
  | [], pending, _, he => by
    have hall : pending ++ (last ++ word) = sign ++ word := by simp [← he]
    rw [List.nil_append, attachSigns, hall, hword]
    rfl
  | piece :: pieces, pending, hne, he => by
    obtain ⟨hpiece, hne⟩ := List.forall_mem_cons.mp hne
    have he' : pending ++ piece ++ pieces.flatten ++ last = sign := by simp [← he]
    have hpending : Operator.isSign (pending ++ piece) = true :=
      hsign _ (by simp [hpiece]) ⟨pieces.flatten ++ last, by simp [← he]⟩
    rw [List.cons_append, attachSigns, if_pos hpending]
    exact attachSigns_pieces hsign hword ws hne he'

namespace Term

variable (t : Term)

/-- The text of a comparator without blanks. -/
def token : List Char := t.sign ++ t.word

variable {t} {text : List Char}

theorem words_of_spaced (h : Spaced t.sign t.word text) :
    ∃ pieces last, words text = pieces ++ [last ++ t.word] ∧ (∀ piece ∈ pieces, piece ≠ []) ∧
      pieces.flatten ++ last = t.sign :=
  exists_words_of_spaced h t.isWord
    (fun _ hc => isBlank_of_isSignChar (isSignChar_of_written t.isWritten hc)) [] (by simp)

theorem attachSigns_spaced (h : Spaced t.sign t.word text) (ws : List (List Char)) :
    attachSigns [] (words text ++ ws) = t.token :: attachSigns [] ws := by
  obtain ⟨pieces, last, hwords, hpieces, hflat⟩ := words_of_spaced h
  rw [hwords, List.append_assoc, List.singleton_append]
  exact attachSigns_pieces (fun _ => isSign_of_prefix t.isWritten)
    (not_isSign_append t.isWord.1 t.head) ws hpieces hflat

/-- A lone hyphen is neither the word of a comparator nor part of its sign. -/
theorem hyphen_not_mem (h : Spaced t.sign t.word text) : ['-'] ∉ words text := by
  obtain ⟨pieces, last, hwords, hpieces, hflat⟩ := words_of_spaced h
  have hsign : '-' ∉ t.sign := fun hc => absurd (isSignChar_of_written t.isWritten hc) (by decide)
  rw [← hflat, List.mem_append, not_or] at hsign
  rw [hwords, List.mem_append, not_or, List.mem_singleton]
  refine ⟨fun hm => hsign.1 (List.mem_flatten.mpr ⟨_, hm, by simp⟩), fun he => ?_⟩
  cases last with
  | nil => exact t.ne_hyphen he.symm
  | cons c cs =>
    obtain ⟨rfl, -⟩ := List.cons.inj he
    exact hsign.2 (by simp)

theorem bars_of_spaced (h : Spaced t.sign t.word text) : ¬ ['|', '|'] <:+: text :=
  h.bars (fun hc => absurd (isSignChar_of_written t.isWritten hc) (by decide)) t.bars

end Term

/-! ## Many comparators -/

namespace Laid

variable {ts : List Term} {text : List Char}

theorem attachSigns_words (h : Laid ts text) : attachSigns [] (words text) = ts.map Term.token := by
  induction h with
  | nil => rfl
  | single h =>
    have hone := Term.attachSigns_spaced h []
    rwa [List.append_nil] at hone
  | cons h hrun _ ih =>
    rw [words_append_run hrun, Term.attachSigns_spaced h, ih]
    rfl

theorem hyphen_not_mem (h : Laid ts text) : ['-'] ∉ words text := by
  induction h with
  | nil => simp [words_nil]
  | single h => exact Term.hyphen_not_mem h
  | cons h hrun _ ih =>
    rw [words_append_run hrun, List.mem_append, not_or]
    exact ⟨Term.hyphen_not_mem h, ih⟩

theorem bars (h : Laid ts text) : ¬ ['|', '|'] <:+: text := by
  induction h with
  | nil => simp
  | single h => exact Term.bars_of_spaced h
  | @cons _ _ _ text run rest h hrun _ ih =>
    obtain ⟨b, bs, rfl⟩ := List.exists_cons_of_ne_nil hrun.1
    obtain ⟨hb, hbs⟩ := List.forall_mem_cons.mp hrun.2
    have hbar : b ≠ '|' := by
      rintro rfl
      cases hb
    rw [List.append_assoc, List.cons_append]
    exact pair_not_infix_append hbar (pair_not_infix_of_not_mem ih (bar_not_mem_blanks hbs)) (Term.bars_of_spaced h)

/-- However comparators are laid out, each is read as its operator applied to
its version. -/
theorem read?_eq_some (h : Laid ts text) {r : Range} : read? text = some r ↔
    ∃ parts, List.Forall₂ (fun t part => ∃ p, Partial.read? t.word = some p ∧ part = t.op.apply p) ts parts ∧
      r = ⟨[parts.flatten]⟩ := by
  have htoken : ∀ t part, readComparator? (Term.token t) = some part ↔
      ∃ p, Partial.read? t.word = some p ∧ part = t.op.apply p := by
    intro t part
    rw [readComparator?, Term.token, splitSign_append t.isWritten t.head]
    simp [eq_comm]
  rw [read?_single h.bars, readWords?_of_no_hyphen h.hyphen_not_mem, h.attachSigns_words]
  simp only [Option.map_map, Option.map_eq_some_iff, mapM_eq_some, List.forall₂_map_left_iff, htoken, Function.comp]
  exact exists_congr fun parts => and_congr_right fun _ => eq_comm

end Laid

/-- **Blanks behind an operator are neutral.** Texts that lay out the same
comparators, with whatever blanks between an operator and its word, between the
two characters of an operator and between comparators, are the same range, or
none of them is a range. They are one if every word is a version, and then each
operator applies to its own. -/
theorem parse_layout {ts : List Term} {text text' : String} (h : Laid ts text.toList) (h' : Laid ts text'.toList) :
    (∀ r, parse text = .ok r ↔ parse text' = .ok r) ∧
    ∀ r, parse text = .ok r ↔ ∃ parts,
      List.Forall₂ (fun t part => ∃ p, Partial.read? t.word = some p ∧ part = t.op.apply p) ts parts ∧
        r = ⟨[parts.flatten]⟩ := by
  have hread : ∀ r, parse text = .ok r ↔ _ := fun r => parse_eq_ok.trans h.read?_eq_some
  have hread' : ∀ r, parse text' = .ok r ↔ _ := fun r => parse_eq_ok.trans h'.read?_eq_some
  exact ⟨fun r => (hread r).trans (hread' r).symm, hread⟩

/-- Two comparators, once with as few blanks as there can be and once with
more. -/
theorem parse_layout_two : ∃ (ts : List Term) (r : Range), Laid ts "> =  1.2 <2".toList ∧
    Laid ts ">=1.2\t< 2".toList ∧ parse "> =  1.2 <2" = .ok r ∧ parse ">=1.2\t< 2" = .ok r := by
  let low : Term := ⟨['>', '='], .compare .ge, ['1', '.', '2'], by decide,
    ⟨by decide, by simp [isBlank]⟩, by decide, by simp [isSignChar], by decide⟩
  let high : Term := ⟨['<'], .compare .lt, ['2'], by decide, ⟨by decide, by simp [isBlank]⟩, by decide,
    by simp [isSignChar], by decide⟩
  have hblank : ∀ b ∈ [' '], isBlank b = true := List.all_eq_true.mp (by decide)
  have hblanks : ∀ b ∈ [' ', ' '], isBlank b = true := List.all_eq_true.mp (by decide)
  have htab : ∀ b ∈ ['\t'], isBlank b = true := List.all_eq_true.mp (by decide)
  have hnone : ∀ b ∈ ([] : List Char), isBlank b = true := by simp
  have hlow : Spaced low.sign low.word "> =  1.2".toList := .sign hblank (.sign hblanks (.word _))
  have hlow' : Spaced low.sign low.word ">=1.2".toList := .sign hnone (.sign hnone (.word _))
  have hhigh : Spaced high.sign high.word "<2".toList := .sign hnone (.word _)
  have hhigh' : Spaced high.sign high.word "< 2".toList := .sign hblank (.word _)
  have h : Laid [low, high] "> =  1.2 <2".toList :=
    .cons hlow ⟨by simp, hblank⟩ (.single hhigh)
  have h' : Laid [low, high] ">=1.2\t< 2".toList :=
    .cons hlow' ⟨by simp, htab⟩ (.single hhigh')
  obtain ⟨hsame, hread⟩ := parse_layout h h'
  have hparse : ∃ r, parse "> =  1.2 <2" = .ok r :=
    ⟨_, (hread _).mpr ⟨_, .cons ⟨_, rfl, rfl⟩ (.cons ⟨_, rfl, rfl⟩ .nil), rfl⟩⟩
  obtain ⟨r, hr⟩ := hparse
  exact ⟨[low, high], r, h, h', hr, (hsame r).mp hr⟩

end VersionPick.Range
