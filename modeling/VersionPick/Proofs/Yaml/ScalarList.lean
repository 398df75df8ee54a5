/-
The ways to write a list of scalars: with dashes, each entry on a line that
may end with a comment, and between brackets; every entry in a style of its
own. Whatever the choice, the texts of the entries are read back in their
order (`readScalars?_dashList`, `readScalars?_flowList`), and a scalar alone is
a list of one (`readScalars?_write`).
-/
import VersionPick.Yaml.ScalarList
import VersionPick.Proofs.Yaml.Scalar

namespace VersionPick.Yaml

open Text

/-- The text of a comment, which ends with its line. -/
def IsComment (comment : List Char) : Prop :=
  ∀ c ∈ comment, isLineEnd c = false ∧ c ≠ '\x00'

instance (comment : List Char) : Decidable (IsComment comment) :=
  List.decidableBAll _ comment

/-- An entry of a list: what it says, how it is written, and the comment behind
it, if its line has one. -/
structure Entry where
  text : List Char
  style : Style := .plain
  comment : Option (List Char) := none
  deriving DecidableEq, Repr

namespace Entry

def written (e : Entry) : List Char :=
  e.style.write e.text

/-- What stands behind the entry on its line. -/
def remark (e : Entry) : List Char :=
  match e.comment with
  | none => []
  | some comment => ' ' :: '#' :: comment

/-- The line of an entry in a list with dashes. -/
def line (e : Entry) : List Char :=
  '-' :: ' ' :: (e.written ++ e.remark)

/-- An entry that may be written in any style. -/
structure Readable (e : Entry) : Prop where
  text : Tame e.text
  comment : ∀ comment ∈ e.comment, IsComment comment

end Entry

/-- A list with dashes, one entry on each line. -/
def dashList (entries : List Entry) : List Char :=
  List.intercalate ['\n'] (entries.map Entry.line)

/-- A list between brackets. -/
def flowList (entries : List Entry) : List Char :=
  '[' :: (List.intercalate [',', ' '] (entries.map Entry.written) ++ [']'])

/-! ## Gaps -/

namespace Gap

/-- A gap ends in front of what is neither separator nor sign of a comment. -/
theorem extend_token {c : Char} (hsep : isSeparator c = false) (hc : c ≠ '#') (g : Gap) (cs : List Char) :
    extend false g (c :: cs) = g := by
  simp only [isSeparator, isInlineBlank, Bool.or_eq_false_iff] at hsep
  have hsign : (c == '#') = false := beq_eq_false_iff_ne.mpr hc
  simp [extend, hsep.1.1, hsep.1.2, hsep.2, hsign]

/-- A comment goes on to the end of its line. -/
theorem extend_comment {comment : List Char} (h : IsComment comment) (rest : List Char) {g : Gap} {column : Nat}
    (hg : g.place = ⟨column, comment ++ rest⟩) :
    extend true g (comment ++ rest) = extend true { g with place := ⟨column + comment.length, rest⟩ } rest := by
  induction comment generalizing g column with
  | nil =>
    cases g
    cases hg
    rfl
  | cons c comment ih =>
    obtain ⟨⟨hline, hnull⟩, hcomment⟩ := List.forall_mem_cons.mp h
    have hnull : (c == '\x00') = false := beq_eq_false_iff_ne.mpr hnull
    have hstep : extend true g (c :: comment ++ rest) =
        extend true { g with place := ⟨column + 1, comment ++ rest⟩ } (comment ++ rest) := by
      simp [extend, hline, hnull, hg]
    rw [hstep, ih hcomment rfl, add_length_cons]

variable {c : Char} (hsep : isSeparator c = false) (hc : c ≠ '#')
include hsep hc

theorem behind_token (column : Nat) (cs : List Char) :
    behind ⟨column, c :: cs⟩ = { place := ⟨column, c :: cs⟩ } := extend_token hsep hc _ cs

theorem behind_space (column : Nat) (cs : List Char) :
    behind ⟨column, ' ' :: c :: cs⟩ = ⟨true, false, 1, false, ⟨column + 1, c :: cs⟩⟩ := extend_token hsep hc _ cs

theorem behind_newLine (column : Nat) (cs : List Char) :
    behind ⟨column, '\n' :: c :: cs⟩ = ⟨true, true, 0, false, ⟨0, c :: cs⟩⟩ := extend_token hsep hc _ cs

theorem behind_comment_newLine {comment : List Char} (h : IsComment comment) (column : Nat) (cs : List Char) :
    behind ⟨column, ' ' :: '#' :: (comment ++ '\n' :: c :: cs)⟩ = ⟨true, true, 0, false, ⟨0, c :: cs⟩⟩ := by
  have hstart : behind ⟨column, ' ' :: '#' :: (comment ++ '\n' :: c :: cs)⟩ =
      extend true ⟨true, false, 1, false, ⟨column + 1 + 1, comment ++ '\n' :: c :: cs⟩⟩ (comment ++ '\n' :: c :: cs) := rfl
  rw [hstart, extend_comment h _ rfl]
  exact extend_token hsep hc _ cs

end Gap

/-- Nothing is left behind a comment at the end of the text. -/
theorem Gap.behind_comment {comment : List Char} (h : IsComment comment) (column : Nat) :
    Gap.behind ⟨column, ' ' :: '#' :: comment⟩ = ⟨true, false, 1, false, ⟨column + 2 + comment.length, []⟩⟩ := by
  have hstart : Gap.behind ⟨column, ' ' :: '#' :: comment⟩ =
      extend true ⟨true, false, 1, false, ⟨column + 2, comment⟩⟩ comment := rfl
  have hcomment := extend_comment h [] (show (⟨true, false, 1, false, ⟨column + 2, comment⟩⟩ : Gap).place =
    ⟨column + 2, comment ++ []⟩ by rw [List.append_nil])
  rw [List.append_nil] at hcomment
  rw [hstart, hcomment]
  rfl

/-! ## Lists with dashes -/

section Lines

variable {e : Entry} (h : e.Readable)
include h

theorem Entry.behind_remark_newLine {c : Char} (hsep : isSeparator c = false) (hc : c ≠ '#') (column : Nat)
    (cs : List Char) : Gap.behind ⟨column, e.remark ++ '\n' :: c :: cs⟩ = ⟨true, true, 0, false, ⟨0, c :: cs⟩⟩ := by
  unfold Entry.remark
  cases hcomment : e.comment with
  | none => exact Gap.behind_newLine hsep hc column cs
  | some comment => exact Gap.behind_comment_newLine hsep hc (h.comment comment hcomment) column cs

theorem Entry.behind_remark (column : Nat) :
    (Gap.behind ⟨column, e.remark⟩).newLine = false ∧ (Gap.behind ⟨column, e.remark⟩).place.rest = [] := by
  unfold Entry.remark
  cases hcomment : e.comment with
  | none => exact ⟨rfl, rfl⟩
  | some comment =>
    rw [Gap.behind_comment (h.comment comment hcomment)]
    exact ⟨rfl, rfl⟩

end Lines

theorem Entry.endsScalar_remark (e : Entry) {inFlow : Bool} {floor : Nat} : EndsScalar inFlow floor e.remark := by
  unfold Entry.remark
  cases e.comment with
  | none => exact ⟨endsPlain_nil, nofun⟩
  | some comment => exact ⟨endsPlain_comment comment, by simp⟩

theorem Entry.endsScalar_remark_newLine (e : Entry) {inFlow : Bool} {floor : Nat} {c : Char}
    (hsep : isSeparator c = false) (cs : List Char) :
    EndsScalar inFlow (floor + 1) (e.remark ++ '\n' :: c :: cs) := by
  unfold Entry.remark
  cases e.comment with
  | none => exact ⟨endsPlain_newLine hsep cs, by simp⟩
  | some comment => exact ⟨endsPlain_comment _, by simp⟩

theorem Style.exists_write (style : Style) {cs : List Char} (h : Tame cs) : ∃ c rest, style.write cs = c :: rest ∧
    isSeparator c = false ∧ c ≠ '#' ∧ isMarkerSign c = false ∧ c ≠ '[' ∧ c ≠ ']' ∧ c ≠ '\ufeff' := by
  cases style with
  | plain =>
    obtain ⟨c, rest, rfl, hc, -, hmarker, -⟩ := h.exists_cons
    exact ⟨c, rest, rfl, not_isSeparator_of_isTame hc,
      ne_of_isTame hc (by decide), hmarker, ne_of_isTame hc (by decide), ne_of_isTame hc (by decide),
      ne_of_isTame hc (by decide)⟩
  | single => exact ⟨'\'', _, rfl, by decide⟩
  | double => exact ⟨'"', _, rfl, by decide⟩

/-- A dash, its blank and the scalar behind it; what follows is read on if it
is a dash at the start of a line. -/
theorem dashItems?_scalar {c : Char} (hsep : isSeparator c = false) (hc : c ≠ '#') (fuel : Nat) {cs item : List Char}
    {stop : Place} (hscalar : scalar? false 1 ⟨2, c :: cs⟩ = some (item, stop)) :
    dashItems? 0 (fuel + 1) ⟨0, '-' :: ' ' :: c :: cs⟩ =
      let next := Gap.behind stop
      if next.newLine && next.indent == 0 && !next.tabbed && atDash next.place then
        (dashItems? 0 fuel next.place).map fun (items, after) => (item :: items, after)
      else some ([item], stop) := by
  simp only [dashItems?, List.tail_cons, Nat.zero_add, Gap.behind_space hsep hc 1 cs, hscalar, Bool.false_and,
    Bool.false_eq_true, if_false, Option.bind_eq_bind, Option.bind_some, Option.map_eq_bind]
  rfl

theorem dashItems?_entry {e : Entry} (h : e.Readable) (fuel : Nat) {rest : List Char} (hend : EndsScalar false 1 rest) :
    dashItems? 0 (fuel + 1) ⟨0, '-' :: ' ' :: (e.written ++ rest)⟩ =
      let next := Gap.behind ⟨2 + e.written.length, rest⟩
      if next.newLine && next.indent == 0 && !next.tabbed && atDash next.place then
        (dashItems? 0 fuel next.place).map fun (items, after) => (e.text :: items, after)
      else some ([e.text], ⟨2 + e.written.length, rest⟩) := by
  obtain ⟨c, more, (hwritten : e.written = c :: more), hsep, hc, -⟩ := e.style.exists_write h.text
  have hscalar : scalar? false 1 ⟨2, e.written ++ rest⟩ = some (e.text, ⟨2 + e.written.length, rest⟩) :=
    scalar?_write h.text hend e.style 2
  rw [hwritten, List.cons_append] at hscalar ⊢
  exact dashItems?_scalar hsep hc fuel hscalar

theorem dashList_singleton (e : Entry) : dashList [e] = e.line := List.intercalate_singleton

theorem dashList_cons_cons (e next : Entry) (entries : List Entry) :
    dashList (e :: next :: entries) = '-' :: ' ' :: (e.written ++ (e.remark ++ '\n' :: dashList (next :: entries))) := by
  simp [dashList, Entry.line]

theorem exists_dashList {entries : List Entry} (h : entries ≠ []) : ∃ rest, dashList entries = '-' :: ' ' :: rest := by
  obtain ⟨e, entries, rfl⟩ := List.exists_cons_of_ne_nil h
  cases entries with
  | nil => exact ⟨_, rfl⟩
  | cons next entries => exact ⟨_, dashList_cons_cons e next entries⟩

theorem atDash_space (column : Nat) (cs : List Char) : atDash ⟨column, '-' :: ' ' :: cs⟩ = true := rfl

/-- The entries are read one line after the other, up to the end of the text. -/
theorem dashItems?_dashList : ∀ {entries : List Entry}, entries ≠ [] → (∀ e ∈ entries, e.Readable) →
    ∀ {fuel : Nat}, entries.length ≤ fuel → ∃ after,
      dashItems? 0 fuel ⟨0, dashList entries⟩ = some (entries.map Entry.text, after) ∧
        (Gap.behind after).place.rest = []
  | [], hne, _, _, _ => absurd rfl hne
  | [e], _, h, fuel, hfuel => by
    have he : e.Readable := h e List.mem_cons_self
    obtain ⟨fuel, rfl⟩ := Nat.exists_eq_add_one.mpr hfuel
    obtain ⟨hline, hrest⟩ := e.behind_remark he (2 + e.written.length)
    refine ⟨⟨2 + e.written.length, e.remark⟩, ?_, hrest⟩
    have hstep := dashItems?_entry he fuel e.endsScalar_remark
    simpa [dashList_singleton, Entry.line, hline] using hstep
  | e :: next :: entries, _, h, fuel, hfuel => by
    obtain ⟨he, hentries⟩ := List.forall_mem_cons.mp h
    obtain ⟨fuel, rfl⟩ := Nat.exists_eq_add_one.mpr (Nat.lt_of_lt_of_le (Nat.succ_pos _) hfuel)
    have ih := dashItems?_dashList (List.cons_ne_nil next entries) hentries (Nat.le_of_succ_le_succ hfuel)
    obtain ⟨after, hitems, hend⟩ := ih
    obtain ⟨rest, hrest⟩ := exists_dashList (List.cons_ne_nil next entries)
    have hstep := dashItems?_entry he fuel
      (e.endsScalar_remark_newLine (show isSeparator '-' = false by decide) (' ' :: rest))
    have hgap := e.behind_remark_newLine he (show isSeparator '-' = false by decide) (by decide)
      (2 + e.written.length) (' ' :: rest)
    rw [← hrest] at hstep hgap
    refine ⟨after, ?_, hend⟩
    have hdash : atDash ⟨0, dashList (next :: entries)⟩ = true := by rw [hrest, atDash_space]
    rw [dashList_cons_cons, hstep, hgap]
    simp [hdash, hitems]

/-! ### Blanks at the end -/

/-- Of the line at the end of a text, blanks at its end shorten the comment
only. -/
theorem Entry.exists_trimEnd_line {e : Entry} (h : e.Readable) : ∃ e' : Entry,
    e'.Readable ∧ e'.text = e.text ∧ trimEnd e.line = e'.line := by
  obtain ⟨c, more, (hwritten : e.written = c :: more), -⟩ := e.style.exists_write h.text
  cases hcomment : e.comment with
  | none =>
    have hline : e.line = ['-', ' '] ++ e.written := by simp [Entry.line, Entry.remark, hcomment]
    have hne : e.written ≠ [] := by simp [hwritten]
    refine ⟨e, h, rfl, ?_⟩
    rw [hline, trimEnd_append hne fun _ hc => not_isBlank_of_mem_write h.text e.style hc]
  | some comment =>
    have hline : e.line = ('-' :: ' ' :: (e.written ++ [' '])) ++ '#' :: comment := by
      simp [Entry.line, Entry.remark, hcomment]
    have hshort : ∀ c ∈ trimEnd comment, c ∈ comment := fun c hc =>
      List.mem_reverse.mp ((List.dropWhile_sublist _).mem (List.mem_reverse.mp hc))
    refine ⟨{ e with comment := some (trimEnd comment) }, ⟨h.text, ?_⟩, rfl, ?_⟩
    · intro short he
      cases he
      exact fun c hc => h.comment comment hcomment c (hshort c hc)
    · rw [hline, trimEnd_append_cons (by decide)]
      simp [Entry.line, Entry.remark, Entry.written]

theorem exists_trimEnd_dashList {blanks : List Char} (hblanks : ∀ c ∈ blanks, isBlank c = true) :
    ∀ {entries : List Entry}, (∀ e ∈ entries, e.Readable) → ∃ entries' : List Entry, (∀ e ∈ entries', e.Readable) ∧
      entries'.map Entry.text = entries.map Entry.text ∧ trimEnd (dashList entries ++ blanks) = dashList entries'
  | [], _ => ⟨[], nofun, rfl, trimEnd_append_blanks hblanks⟩
  | [e], h => by
    obtain ⟨e', h', htext, hline⟩ := Entry.exists_trimEnd_line (h e List.mem_cons_self)
    refine ⟨[e'], by simpa using h', by simp [htext], ?_⟩
    rw [dashList_singleton, dashList_singleton, trimEnd_append_blanks hblanks, hline]
  | e :: next :: entries, h => by
    obtain ⟨he, hentries⟩ := List.forall_mem_cons.mp h
    obtain ⟨entries', h', htexts, hlist⟩ := exists_trimEnd_dashList hblanks hentries
    have hne : entries' ≠ [] := by
      rintro rfl
      cases htexts
    obtain ⟨next', entries', rfl⟩ := List.exists_cons_of_ne_nil hne
    refine ⟨e :: next' :: entries', List.forall_mem_cons.mpr ⟨he, h'⟩, by simpa using htexts, ?_⟩
    -- blanks do not reach beyond the dash of the next line
    obtain ⟨rest, hrest⟩ := exists_dashList (List.cons_ne_nil next entries)
    rw [hrest, List.cons_append, trimEnd_cons (by decide)] at hlist
    have hfront : dashList (e :: next :: entries) ++ blanks =
        ('-' :: ' ' :: (e.written ++ (e.remark ++ ['\n']))) ++ '-' :: (' ' :: rest ++ blanks) := by
      simp [dashList_cons_cons, hrest]
    rw [hfront, trimEnd_append_cons (by decide), hlist, dashList_cons_cons]
    simp

/-! ## Lists between brackets -/

/-- An entry, the gap in front of it and the sign behind it. -/
theorem flowItems?_entry {e : Entry} (h : e.Readable) (fuel : Nat) {p : Place} {column : Nat} {sign : Char}
    {rest : List Char} (hp : (Gap.behind p).place = ⟨column + 1, e.written ++ sign :: rest⟩)
    (hsign : sign = ',' ∨ sign = ']') : flowItems? (fuel + 1) p =
      let behind : Place := ⟨column + 1 + e.written.length + 1, rest⟩
      if sign = ',' then (flowItems? fuel behind).map fun (items, after) => (e.text :: items, after)
      else some ([e.text], behind) := by
  obtain ⟨c, more, (hwritten : e.written = c :: more), -, -, -, -, hbracket, -⟩ := e.style.exists_write h.text
  have hflow : isFlowSign sign = true := by rcases hsign with rfl | rfl <;> rfl
  have hend : EndsScalar true 0 (sign :: rest) :=
    ⟨endsPlain_flowSign hflow rest, by rcases hsign with rfl | rfl <;> simp⟩
  have hscalar : scalar? true 0 ⟨column + 1, e.written ++ sign :: rest⟩ =
      some (e.text, ⟨column + 1 + e.written.length, sign :: rest⟩) := scalar?_write h.text hend e.style _
  have hgap : Gap.behind ⟨column + 1 + e.written.length, sign :: rest⟩ =
      { place := ⟨column + 1 + e.written.length, sign :: rest⟩ } := by
    rcases hsign with rfl | rfl <;> exact Gap.behind_token (by decide) (by decide) _ _
  have hstart : (⟨column + 1, e.written ++ sign :: rest⟩ : Place).atMarker = false := by simp [Place.atMarker]
  have hnext : (⟨column + 1 + e.written.length, sign :: rest⟩ : Place).atMarker = false := by simp [Place.atMarker]
  simp only [flowItems?, hp, hstart, hscalar, hgap, hnext, Bool.false_eq_true, if_false, Option.bind_eq_bind,
    Option.bind_some, Option.map_eq_bind]
  rw [hwritten, List.cons_append]
  split
  next he => exact absurd (List.cons.inj he).1 hbracket
  next =>
    rcases hsign with rfl | rfl
    · rfl
    · rfl

theorem exists_intercalate {e : Entry} (h : e.Readable) (sep : List Char) (entries : List Entry) (rest : List Char) :
    ∃ c cs, List.intercalate sep ((e :: entries).map Entry.written) ++ rest = c :: cs ∧
      isSeparator c = false ∧ c ≠ '#' := by
  obtain ⟨c, more, (hwritten : e.written = c :: more), hsep, hc, -⟩ := e.style.exists_write h.text
  cases entries with
  | nil => exact ⟨c, more ++ rest, by simp [hwritten], hsep, hc⟩
  | cons next entries =>
    exact ⟨c, more ++ (sep ++ List.intercalate sep ((next :: entries).map Entry.written) ++ rest),
      by simp [hwritten], hsep, hc⟩

/-- The entries are read one after the other, up to the bracket. -/
theorem flowItems?_intercalate : ∀ {entries : List Entry}, entries ≠ [] → (∀ e ∈ entries, e.Readable) →
    ∀ {fuel : Nat}, entries.length ≤ fuel → ∀ {p : Place} {column : Nat},
      (Gap.behind p).place = ⟨column + 1, List.intercalate [',', ' '] (entries.map Entry.written) ++ [']']⟩ →
      ∃ stop, flowItems? fuel p = some (entries.map Entry.text, ⟨stop, []⟩)
  | [], hne, _, _, _, _, _, _ => absurd rfl hne
  | [e], _, h, fuel, hfuel, p, column, hp => by
    obtain ⟨fuel, rfl⟩ := Nat.exists_eq_add_one.mpr hfuel
    rw [List.map_singleton, List.intercalate_singleton] at hp
    exact ⟨_, flowItems?_entry (h e List.mem_cons_self) fuel hp (.inr rfl)⟩
  | e :: next :: entries, _, h, fuel, hfuel, p, column, hp => by
    -- only the first entry has no space in front of it, hence the place `p`
    obtain ⟨he, hentries⟩ := List.forall_mem_cons.mp h
    obtain ⟨fuel, rfl⟩ := Nat.exists_eq_add_one.mpr (Nat.lt_of_lt_of_le (Nat.succ_pos _) hfuel)
    have hjoin : List.intercalate [',', ' '] ((e :: next :: entries).map Entry.written) ++ [']'] =
        e.written ++ ',' :: ' ' :: (List.intercalate [',', ' '] ((next :: entries).map Entry.written) ++ [']']) := by
      simp
    rw [hjoin] at hp
    have hstep := flowItems?_entry he fuel hp (.inl rfl)
    obtain ⟨c, cs, hcs, hsep, hc⟩ := exists_intercalate (hentries next List.mem_cons_self) [',', ' '] entries [']']
    have hgap := congrArg Gap.place (Gap.behind_space hsep hc (column + 1 + e.written.length + 1) cs)
    rw [← hcs] at hgap
    have ih := flowItems?_intercalate (List.cons_ne_nil next entries) hentries (Nat.le_of_succ_le_succ hfuel) hgap
    obtain ⟨stop, hitems⟩ := ih
    refine ⟨stop, hstep.trans ?_⟩
    simp only [if_true, hitems]
    rfl

/-! ## Documents -/

/-- A document that starts with the first character of the text, and with no
marker. -/
theorem readScalars?_cons {c : Char} {cs : List Char} (hsep : isSeparator c = false) (hc : c ≠ '#')
    (hmark : c ≠ '\ufeff') (hmarker : isMarker (c :: cs) = false) :
    readScalars? (c :: cs) = (content? false { place := ⟨0, c :: cs⟩ }).bind fun (items, after) =>
      if atEnd after then some items else none := by
  have hmark : (c == '\ufeff') = false := beq_eq_false_iff_ne.mpr hmark
  have hgap : Gap.behind ⟨0, c :: cs⟩ = { place := ⟨0, c :: cs⟩ } := Gap.behind_token hsep hc 0 cs
  simp [readScalars?, withoutByteOrderMark, hmark, hgap, atMarkerOf, Place.atMarker, hmarker]

theorem isMarker_cons {c : Char} (h : isMarkerSign c = false) : ∀ cs, isMarker (c :: cs) = false
  | [] => rfl
  | [_] => rfl
  | _ :: _ :: _ => by simp [isMarker, h]

theorem atDash_cons {c : Char} (h : c ≠ '-') (column : Nat) (cs : List Char) : atDash ⟨column, c :: cs⟩ = false := by
  unfold atDash
  split
  next he => exact absurd (List.cons.inj he).1 h
  next => rfl

theorem atEnd_of_rest {p : Place} (h : (Gap.behind p).place.rest = []) : atEnd p = true := by
  simp [atEnd, h]

theorem length_le_dashList : ∀ entries : List Entry, entries.length ≤ (dashList entries).length
  | [] => Nat.zero_le 0
  | [e] => by simp [dashList_singleton, Entry.line]
  | e :: next :: entries => by
    have ih := length_le_dashList (next :: entries)
    simp only [dashList_cons_cons, List.length_cons, List.length_append] at ih ⊢
    omega

theorem length_le_intercalate (sep : List Char) (hsep : sep ≠ []) : ∀ entries : List Entry,
    entries.length ≤ (List.intercalate sep (entries.map Entry.written)).length + 1
  | [] => Nat.zero_le _
  | [e] => by simp
  | e :: next :: entries => by
    have ih := length_le_intercalate sep hsep (next :: entries)
    have hlength : 0 < sep.length := List.length_pos_iff.mpr hsep
    simp only [List.map_cons, List.intercalate_cons_cons, List.length_cons, List.length_append] at ih ⊢
    omega

/-- The list with dashes that fills the text. -/
theorem readScalars?_dash {cs : List Char} {items : List (List Char)} {after : Place}
    (hitems : dashItems? 0 (cs.length + 2) ⟨0, '-' :: ' ' :: cs⟩ = some (items, after))
    (hend : (Gap.behind after).place.rest = []) : readScalars? ('-' :: ' ' :: cs) = some items := by
  have hmarker : isMarker ('-' :: ' ' :: cs) = false := by cases cs <;> simp [isMarker]
  have hcontent : content? false { place := ⟨0, '-' :: ' ' :: cs⟩ } = some (items, after) := by
    simp only [content?, Place.atMarker, hmarker, atDash_space, Bool.and_false, Bool.false_and, Bool.or_self,
      Bool.false_eq_true, if_false, if_true]
    exact hitems
  rw [readScalars?_cons (by decide) (by decide) (by decide) hmarker, hcontent]
  simp [atEnd_of_rest hend]

/-- A scalar alone is a list of one. -/
theorem readScalars?_write (style : Style) {cs : List Char} (h : Tame cs) :
    readScalars? (style.write cs) = some [cs] := by
  obtain ⟨c, rest, hwritten, hsep, hc, hsign, hbracket, -, hmark⟩ := style.exists_write h
  have hmarker : isMarker (c :: rest) = false := isMarker_cons hsign rest
  have hdash : atDash ⟨0, c :: rest⟩ = false := atDash_cons (by rintro rfl; cases hsign) 0 rest
  have hend : EndsScalar false 0 [] := ⟨endsPlain_nil, nofun⟩
  have hscalar := scalar?_write h hend style 0
  rw [List.append_nil, hwritten] at hscalar
  have hcontent : content? false { place := ⟨0, c :: rest⟩ } = some ([cs], ⟨(c :: rest).length, []⟩) := by
    simp only [content?, Place.atMarker, hmarker, hdash, Bool.and_false, Bool.false_eq_true, if_false]
    split
    next he => exact absurd (List.cons.inj he).1 hbracket
    next => rw [hscalar, Option.map_some, Nat.zero_add]
  rw [hwritten, readScalars?_cons hsep hc hmark hmarker, hcontent]
  rfl

section Lists

variable {entries : List Entry} (hne : entries ≠ []) (h : ∀ e ∈ entries, e.Readable)
include hne h

/-- A list with dashes is read back. -/
theorem readScalars?_dashList : readScalars? (dashList entries) = some (entries.map Entry.text) := by
  obtain ⟨after, hitems, hend⟩ := dashItems?_dashList hne h (length_le_dashList entries)
  obtain ⟨rest, hrest⟩ := exists_dashList hne
  rw [hrest] at hitems ⊢
  exact readScalars?_dash hitems hend

/-- A list between brackets is read back. -/
theorem readScalars?_flowList : readScalars? (flowList entries) = some (entries.map Entry.text) := by
  obtain ⟨e, more, rfl⟩ := List.exists_cons_of_ne_nil hne
  obtain ⟨c, cs, hcs, hsep, hc⟩ := exists_intercalate (h e List.mem_cons_self) [',', ' '] more [']']
  have hfuel : (e :: more).length ≤ (c :: cs).length + 1 := by
    have hlength := length_le_intercalate [',', ' '] (by decide) (e :: more)
    rw [← hcs, List.length_append]
    omega
  have hgap : Gap.behind ⟨1, c :: cs⟩ = { place := ⟨1, c :: cs⟩ } := Gap.behind_token hsep hc 1 cs
  have hplace : (Gap.behind ⟨1, c :: cs⟩).place =
      ⟨0 + 1, List.intercalate [',', ' '] ((e :: more).map Entry.written) ++ [']']⟩ := by
    rw [hgap, hcs]
  obtain ⟨stop, hitems⟩ := flowItems?_intercalate hne h hfuel hplace
  have hmarker : isMarker ('[' :: c :: cs) = false := isMarker_cons (by decide) _
  have hdash : atDash ⟨0, '[' :: c :: cs⟩ = false := atDash_cons (by decide) 0 _
  have hcontent : content? false { place := ⟨0, '[' :: c :: cs⟩ } = some ((e :: more).map Entry.text, ⟨stop, []⟩) := by
    simp only [content?, Place.atMarker, hmarker, hdash, Bool.and_false, Bool.false_eq_true, if_false]
    exact hitems
  rw [flowList, hcs, readScalars?_cons (by decide) (by decide) (by decide) hmarker, hcontent]
  rfl

end Lists

end VersionPick.Yaml
