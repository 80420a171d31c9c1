import AskSql.Proofs.Idiom.Tokens

/-! The forms that take a date back to the Monday of its week.  SQL Server counts the days back to
it with `DATEPART` and MySQL with `WEEKDAY`; either form has the date in it twice. -/

namespace AskSql.Idiom

open Text Sql

variable {arg text : List Char} {tokens : List (List Char)}

/-! ### Spaced tokens -/

/-- `text` is `tokens` with white space before, between and after them. -/
inductive Spaced : List (List Char) → List Char → Prop
  | nil (gap : List Char) (hgap : blank gap = true) : Spaced [] gap
  | cons (gap token : List Char) {tokens : List (List Char)} {text : List Char}
      (hgap : blank gap = true) (h : Spaced tokens text) :
      Spaced (token :: tokens) (gap ++ token ++ text)

namespace Spaced

theorem pad {gap : List Char} (h : Spaced tokens text) (hgap : blank gap = true) :
    Spaced tokens (gap ++ text) := by
  cases h with
  | nil first hfirst => exact .nil _ (by simp_all [blank])
  | cons first token hfirst h =>
    have hall : blank (gap ++ first) = true := by simp_all [blank]
    simpa using cons (gap ++ first) token hall h

theorem append {tokens' : List (List Char)} {text' : List Char} (h : Spaced tokens text)
    (h' : Spaced tokens' text') : Spaced (tokens ++ tokens') (text ++ text') := by
  induction h with
  | nil gap hgap => exact h'.pad hgap
  | cons gap token hgap _ ih => simpa using cons gap token hgap ih

theorem reverse (h : Spaced tokens text) :
    Spaced (tokens.map List.reverse).reverse text.reverse := by
  induction h with
  | nil gap hgap => exact .nil _ (by simpa [blank] using hgap)
  | cons gap token hgap _ ih =>
    have hlast := cons [] token.reverse rfl (.nil gap.reverse (by simpa [blank] using hgap))
    simpa using ih.append hlast

theorem trimStart_eq {token : List Char} (h : Spaced (token :: tokens) text)
    (htoken : ∃ c ∈ token.head?, isBlank c = false) :
    ∃ text', Spaced tokens text' ∧ ∀ rest, trimStart (text ++ rest) = token ++ (text' ++ rest) := by
  obtain ⟨c, hc, hb⟩ := htoken
  cases h with
  | cons gap _ hgap h =>
    refine ⟨_, h, fun rest => ?_⟩
    rw [List.append_assoc, List.append_assoc, Text.trimStart_append hgap]
    exact trimStart_of_head ⟨c, by simp [List.head?_append, Option.mem_def.1 hc], hb⟩

/-- A token of one character is taken off with the white space before it. -/
theorem char?_eq {x : Char} (h : Spaced ([x] :: tokens) text) (hx : isBlank x = false) :
    ∃ text', Spaced tokens text' ∧ ∀ rest, char? x (trimStart (text ++ rest)) =
      some (text' ++ rest) := by
  obtain ⟨text', h, heq⟩ := h.trimStart_eq ⟨x, by simp, hx⟩
  exact ⟨text', h, fun rest => by rw [heq, List.singleton_append, char?_cons_self]⟩

/-- A keyword is taken off with the white space before it. -/
theorem keywordChars?_eq {token : List Char} (h : Spaced (token :: tokens) text)
    (htoken : ∃ c ∈ token.head?, isBlank c = false) :
    ∃ text', Spaced tokens text' ∧
      ∀ rest, keywordChars? (token.map fold) (trimStart (text ++ rest)) = some (text' ++ rest) := by
  obtain ⟨text', h, heq⟩ := h.trimStart_eq htoken
  exact ⟨text', h, fun rest => by rw [heq, keywordChars?_append]⟩

theorem split {tokens' : List (List Char)} {token : List Char}
    (h : Spaced (tokens ++ token :: tokens') text) :
    ∃ front back, text = front ++ token ++ back ∧ Spaced tokens front ∧ Spaced tokens' back := by
  induction tokens generalizing text with
  | nil =>
    cases h with
    | cons gap _ hgap h => exact ⟨gap, _, rfl, .nil gap hgap, h⟩
  | cons first tokens ih =>
    cases h with
    | cons gap _ hgap h =>
      obtain ⟨front, back, rfl, hfront, hback⟩ := ih h
      exact ⟨gap ++ first ++ front, back, by simp, .cons gap first hgap hfront, hback⟩

theorem forall_mem {p : Char → Prop} (h : Spaced tokens text) (hblank : ∀ c, isBlank c = true → p c)
    (htokens : ∀ token ∈ tokens, ∀ c ∈ token, p c) : ∀ c ∈ text, p c := by
  induction h with
  | nil gap hgap => exact fun c hc => hblank c (List.all_eq_true.1 hgap c hc)
  | cons gap token hgap _ ih =>
    intro c hc
    simp only [List.mem_append] at hc
    rcases hc with (hc | hc) | hc
    · exact hblank c (List.all_eq_true.1 hgap c hc)
    · exact htokens token (by simp) c hc
    · exact ih (fun token htoken => htokens token (List.mem_cons_of_mem _ htoken)) c hc

end Spaced

/-- How many parentheses are open after `tokens`, if each of them ends outside quotes. -/
def openAfter (depth : Nat) (tokens : List (List Char)) : Option Nat :=
  tokens.foldlM (fun depth token => do
    let (region, depth) ← nest (.code, depth) token
    if region = .code then some depth else none) depth

theorem Spaced.nest_eq {depth depth' : Nat} (h : Spaced tokens text)
    (hopen : openAfter depth tokens = some depth') :
    nest (.code, depth) text = some (.code, depth') := by
  induction h generalizing depth with
  | nil gap hgap =>
    obtain rfl : depth = depth' := by simpa [openAfter] using hopen
    exact (closed_of_blank hgap).nest_eq depth
  | cons gap token hgap _ ih =>
    rw [openAfter, List.foldlM_cons] at hopen
    obtain ⟨between, htoken, hrest⟩ := Option.bind_eq_some_iff.1 hopen
    obtain ⟨⟨region, open'⟩, hnest, hregion⟩ := Option.bind_eq_some_iff.1 htoken
    obtain ⟨rfl, rfl⟩ : region = .code ∧ open' = between := by simpa using hregion
    rw [nest_append, nest_append, (closed_of_blank hgap).nest_eq depth, Option.bind_some, hnest,
      Option.bind_some]
    exact ih hrest

/-! ### SQL Server -/

/-- The days from the Monday of its week to a date, less than zero. -/
inductive Offset (arg : List Char) : List Char → Prop
  | intro {call part first body : List Char} (hcall : Keyword "datepart" call)
      (hpart : Keyword "weekday" part) (hfirst : Keyword "@@datefirst" first)
      (hbody :
        Spaced [['('], ['('], call, ['('], part, [','], arg, [')'], ['+'], first, ['-'], ['2'],
        [')'], ['%'], ['7']] body) : Offset arg ('-' :: body ++ [')'])

namespace Offset

/-- The days back are read from both ends, up to the date between them. -/
theorem weekdayOffset?_eq (h : Offset arg text) (harg : Trimmed arg) :
    weekdayOffset? text = some arg := by
  obtain ⟨hcall, hpart, hfirst, hbody⟩ := h
  rename_i call part first body
  obtain ⟨t1, h1, e1⟩ := hbody.char?_eq (by decide)
  obtain ⟨t2, h2, e2⟩ := h1.char?_eq (by decide)
  obtain ⟨t3, h3, e3⟩ := h2.keywordChars?_eq (hcall.trimmed (by decide) (by decide)).head
  obtain ⟨t4, h4, e4⟩ := h3.char?_eq (by decide)
  obtain ⟨t5, h5, e5⟩ := h4.keywordChars?_eq (hpart.trimmed (by decide) (by decide)).head
  obtain ⟨t6, h6, e6⟩ := h5.char?_eq (by decide)
  have hback : Spaced [['7'], ['%'], [')'], ['2'], ['-'], first.reverse, ['+'], [')'], arg.reverse]
      t6.reverse := by simpa using h6.reverse
  obtain ⟨b1, g1, d1⟩ := hback.char?_eq (by decide)
  obtain ⟨b2, g2, d2⟩ := g1.char?_eq (by decide)
  obtain ⟨b3, g3, d3⟩ := g2.char?_eq (by decide)
  obtain ⟨b4, g4, d4⟩ := g3.char?_eq (by decide)
  obtain ⟨b5, g5, d5⟩ := g4.char?_eq (by decide)
  obtain ⟨b6, g6, d6⟩ := g5.keywordChars?_eq
    (by simpa using (hfirst.trimmed (by decide) (by decide)).last)
  obtain ⟨b7, g7, d7⟩ := g6.char?_eq (by decide)
  obtain ⟨b8, g8, d8⟩ := g7.char?_eq (by decide)
  have hoperand : trim b8.reverse = arg := by
    obtain ⟨left, right, hl, hr, heq⟩ : ∃ left right, blank left = true ∧ blank right = true ∧
        b8 = left ++ arg.reverse ++ right := by
      cases g8 with
      | cons left _ hl hlast =>
        cases hlast with
        | nil _ hr => exact ⟨left, _, hl, hr, rfl⟩
    rw [heq]
    have htrim := @Trimmed.trim_padded _ harg right.reverse left.reverse
      (by simpa [blank] using hr) (by simpa [blank] using hl)
    simpa using htrim
  rw [hcall] at e3
  rw [hpart] at e5
  rw [List.map_reverse, hfirst] at d6
  have hend : (t6 ++ [')']).reverse = ')' :: t6.reverse := by simp
  have step : ∀ {b c : List Char} {x : Char},
      (∀ rest, char? x (trimStart (b ++ rest)) = some (c ++ rest)) →
      char? x (trimStart b) = some c := fun h => by simpa using h []
  have hkey := d6 []
  rw [List.append_nil, List.append_nil] at hkey
  have hclose : char? ')' (t6 ++ [')']).reverse = some t6.reverse := by
    rw [hend, char?_cons_self]
  have hthen : ∀ {α : Type} {x : Option (List Char)} {f : List Char → Option α} {b : List Char}
      {c : α}, x = some b → f b = some c → (x >>= f) = some c :=
    fun hx hf => Option.bind_eq_some_iff.2 ⟨_, hx, hf⟩
  rw [List.cons_append]
  refine hthen (char?_cons_self _ _) (hthen (e1 _) (hthen (e2 _) (hthen (e3 _) (hthen (e4 _)
    (hthen (e5 _) (hthen (e6 _) ?_))))))
  refine hthen hclose (hthen (step d1) (hthen (step d2) (hthen (step d3) (hthen (step d4)
    (hthen (step d5) (hthen hkey (hthen (step d7) (hthen (step d8) ?_))))))))
  rw [hoperand]
  rfl

theorem paren_mem (h : Offset arg text) : '(' ∈ text := by
  obtain ⟨-, -, -, hbody⟩ := h
  obtain ⟨front, back, rfl, -, -⟩ := @Spaced.split _ [] _ _ hbody
  simp

theorem isArg (h : Offset arg text) (harg : IsArg arg) : IsArg text := by
  obtain ⟨hcall, hpart, hfirst, hbody⟩ := h
  rename_i call part first body
  refine ⟨?_, @Trimmed.append ['-'] _ ⟨'-', by simp, by decide⟩ ⟨')', by simp, by decide⟩ body⟩
  have hcallNest := (hcall.tame (by decide)).closed
  have hpartNest := (hpart.tame (by decide)).closed
  have hfirstNest : Closed first := closed_of_not_isMark
    (hfirst.forall_mem (fun c hc => isMark_of_isWordChar (isWordChar_of_foldsToLetter hc))
    (by decide))
  have hopen : openAfter 0 [['('], ['('], call, ['('], part, [','], arg, [')'], ['+'], first, ['-'],
      ['2'], [')'], ['%'], ['7']] = some 1 := by
    simp [openAfter, hcallNest.nest_eq, hpartNest.nest_eq, hfirstNest.nest_eq, harg.closed.nest_eq,
      nestStep, Region.next, Region.isQuote]
  have hnest := hbody.nest_eq hopen
  rw [Closed, List.cons_append, nest_cons]
  simp [nestStep, Region.next, Region.isQuote, nest_append, hnest]

/-- The date stands between a comma and a parenthesis. -/
theorem clockFree (h : Offset arg text) (harg : ClockFree arg) : ClockFree text := by
  obtain ⟨hcall, hpart, hfirst, hbody⟩ := h
  rename_i call part first body
  have hword : ∀ {key : String} {word : List Char}, Keyword key word →
      (∀ c ∈ key.toList, c.isAlpha = true ∨ c ≠ '\'' ∧ c ≠ '_') → ∀ c ∈ word, c ≠ '\'' ∧ c ≠ '_' :=
    fun hk => hk.forall_mem fun c hc => by
      constructor <;> (rintro rfl; exact absurd hc (by decide))
  have hblank : ∀ c, isBlank c = true → c ≠ '\'' ∧ c ≠ '_' := fun c hc => by
    constructor <;> (rintro rfl; exact absurd hc (by decide))
  obtain ⟨front, back, rfl, hfront, hback⟩ :=
    @Spaced.split _ [['('], ['('], call, ['('], part] _ _ hbody
  obtain ⟨gap, back, rfl, hgap, hback⟩ := @Spaced.split _ [] _ _ hback
  obtain ⟨gap', back, rfl, hgap', hback⟩ := @Spaced.split _ [] _ _ hback
  cases hgap with
  | nil _ hgap =>
    cases hgap' with
    | nil _ hgap' =>
      have hcallAll := hword hcall (by decide)
      have hpartAll := hword hpart (by decide)
      have hfirstAll := hword hfirst (by decide)
      have hfrontAll := hfront.forall_mem hblank (by
        intro token htoken
        simp only [List.mem_cons, List.not_mem_nil, or_false] at htoken
        rcases htoken with rfl | rfl | rfl | rfl | rfl
        · decide
        · decide
        · exact hcallAll
        · decide
        · exact hpartAll)
      have hbackAll := hback.forall_mem hblank (by
        intro token htoken
        simp only [List.mem_cons, List.not_mem_nil, or_false] at htoken
        rcases htoken with rfl | rfl | rfl | rfl | rfl | rfl | rfl
        · decide
        · exact hfirstAll
        all_goals decide)
      have hf : ClockFree ('-' :: front ++ ',' :: gap) := by
        refine clockFree_of_forall fun c hc => ?_
        simp only [List.cons_append, List.mem_cons, List.mem_append] at hc
        rcases hc with rfl | hc | rfl | hc
        · decide
        · exact hfrontAll c hc
        · decide
        · exact hblank c (List.all_eq_true.1 hgap c hc)
      have hb : ClockFree (gap' ++ ')' :: (back ++ [')'])) := by
        refine clockFree_of_forall fun c hc => ?_
        simp only [List.mem_cons, List.mem_append, List.not_mem_nil, or_false] at hc
        rcases hc with hc | rfl | hc | rfl
        · exact hblank c (List.all_eq_true.1 hgap' c hc)
        · decide
        · exact hbackAll c hc
        · decide
      have h := (hf.append harg (joins_of_separator (by decide) hgap)).append hb
        (joins_to_blank hgap' (by decide) (Or.inr (by decide)))
      simpa using h

end Offset

/-- What stands between the parentheses of a cast of `arg` to a date. -/
inductive CastBody (arg : List Char) : List Char → Prop
  | intro {as date : List Char} (has : Keyword "as" as) (hdate : Keyword "date" date)
      (gap gap' : List Char) (hgap : blank gap = true) (hne : gap ≠ []) (hgap' : blank gap' = true)
      (hne' : gap' ≠ []) : CastBody arg (arg ++ gap ++ as ++ gap' ++ date)

namespace CastBody

theorem castToDate?_eq (h : CastBody arg text) (harg : Trimmed arg) :
    castToDate? text = some arg := by
  obtain ⟨has, hdate, gap, gap', hgap, hne, hgap', hne'⟩ := h
  rename_i as date
  obtain ⟨c, hc, hb⟩ := (has.trimmed (by decide) (by decide)).last
  have hfront : ∃ c ∈ (arg ++ gap ++ as).getLast?, isBlank c = false :=
    ⟨c, by rw [List.getLast?_append, Option.mem_def.1 hc]; rfl, hb⟩
  have harg' : arg.isEmpty = false := by simp [harg.ne_nil]
  simp only [castToDate?, hdate.beforeKeyword?_append hfront hgap' hne', Option.bind_eq_bind,
    Option.bind_some, has.beforeKeyword?_append harg.last hgap hne, harg']
  rfl

theorem isArg (h : CastBody arg text) (harg : IsArg arg) : IsArg text := by
  obtain ⟨has, hdate, gap, gap', hgap, -, hgap', -⟩ := h
  rename_i as date
  refine ⟨?_, ?_⟩
  · exact (((harg.closed.append (closed_of_blank hgap)).append (has.tame (by decide)).closed).append
      (closed_of_blank hgap')).append (hdate.tame (by decide)).closed
  · have h := Trimmed.append harg.trimmed.head (hdate.trimmed (by decide) (by decide)).last
      (gap ++ as ++ gap')
    simpa using h

theorem clockFree (h : CastBody arg text) (harg : ClockFree arg) : ClockFree text := by
  obtain ⟨has, hdate, gap, gap', hgap, hne, hgap', -⟩ := h
  rename_i as date
  have hback : ClockFree (gap ++ as ++ gap' ++ date) :=
    ((((tame_of_blank hgap).append (has.tame (by decide))).append (tame_of_blank hgap')).append
      (hdate.tame (by decide))).clockFree
  obtain ⟨c, as, rfl⟩ := List.exists_cons_of_ne_nil (has.ne_nil (by decide))
  have hc := isWordChar_of_foldsToLetter
    (has.forall_mem (p := fun c => foldsToLetter c = true) (fun _ => id) (by decide) c (by simp))
  have hopen : c ≠ '(' := by
    rintro rfl
    exact absurd hc (by decide)
  have hjoin : Joins arg (gap ++ c :: (as ++ gap' ++ date)) :=
    joins_to_blank hgap ⟨isBlank_of_isWordChar hc, hopen⟩ (Or.inl hne)
  have h := harg.append (by simpa using hback) hjoin
  simpa using h

end CastBody

/-! ### MySQL -/

/-- The interval from the Monday of its week to a date. -/
inductive WeekdayInterval (arg : List Char) : List Char → Prop
  | intro {interval name call day : List Char} (hinterval : Keyword "interval" interval)
      (hname : sameAscii name "WEEKDAY".toList = true) (hcall : Written name [arg] call)
      (hday : Keyword "day" day) (gap gap' : List Char) (hgap : blank gap = true) (hne : gap ≠ [])
      (hgap' : blank gap' = true) (hne' : gap' ≠ []) :
      WeekdayInterval arg (interval ++ gap ++ call ++ gap' ++ day)

theorem isName_weekday {name : List Char} (h : sameAscii name "WEEKDAY".toList = true) :
    IsName name :=
  isName_of_sameAscii h (by decide)

namespace WeekdayInterval

theorem weekdayInterval?_eq (h : WeekdayInterval arg text) (harg : IsArg arg)
    {base name operand : List Char} (hbase : callParts base = some (name, operand))
    (hdate : DateFunction.ofName? name = some .date) (hoperand : trim operand = arg) :
        weekdayInterval? base text = some arg := by
  obtain ⟨hinterval, hname, hcall, hday, gap, gap', hgap, hne, hgap', hne'⟩ := h
  rename_i interval weekday call day
  obtain ⟨inner, hcall, -, hinner⟩ :=
    hcall.isCall (isName_weekday hname) (by simpa using harg) (by simp)
  have htrim : Trimmed (interval ++ (gap ++ call ++ gap') ++ day) :=
    Trimmed.append (hinterval.trimmed (by decide) (by decide)).head
      (hday.trimmed (by decide) (by decide)).last _
  have hsplit : interval ++ gap ++ call ++ gap' ++ day =
      interval ++ (gap ++ (call ++ gap' ++ day)) := by
    simp
  have htrim : trim (interval ++ (gap ++ (call ++ gap' ++ day))) =
      interval ++ (gap ++ (call ++ gap' ++ day)) := by simpa using htrim.trim_eq
  have hstart : trimStart (call ++ gap' ++ day) = call ++ gap' ++ day := by
    obtain ⟨c, hc, hb⟩ := hcall.trimmed.head
    exact trimStart_of_head ⟨c, by simp [List.head?_append, Option.mem_def.1 hc], hb⟩
  have hblanks : blanks? (gap ++ (call ++ gap' ++ day)) = some (call ++ gap' ++ day) := by
    rw [blanks?_append hne hgap, hstart]
  rw [hsplit]
  simp only [weekdayInterval?, hbase, htrim, keyword?_append hinterval, hblanks, hdate,
    hday.beforeKeyword?_append hcall.trimmed.last hgap' hne', hcall.callParts_eq,
    Option.bind_eq_bind, Option.bind_some, hname, hinner arg rfl, hoperand]
  simp

theorem isArg (h : WeekdayInterval arg text) (harg : IsArg arg) : IsArg text := by
  obtain ⟨hinterval, hname, hcall, hday, gap, gap', hgap, -, hgap', -⟩ := h
  rename_i interval weekday call day
  have hcall := hcall.isArg (isName_weekday hname) (by simpa using harg) (by simp)
  refine ⟨?_, ?_⟩
  · exact ((((hinterval.tame (by decide)).closed.append (closed_of_blank hgap)).append
      hcall.closed).append (closed_of_blank hgap')).append (hday.tame (by decide)).closed
  · have h := Trimmed.append (hinterval.trimmed (by decide) (by decide)).head
      (hday.trimmed (by decide) (by decide)).last (gap ++ call ++ gap')
    simpa using h

theorem clockFree (h : WeekdayInterval arg text) (harg : IsArg arg) (hfree : ClockFree arg) :
    ClockFree text := by
  obtain ⟨hinterval, hname, hcall, hday, gap, gap', hgap, hne, hgap', hne'⟩ := h
  rename_i interval weekday call day
  have hmiddle := clockFree_written hcall (isName_weekday hname)
    (by rw [length_of_sameAscii hname]; decide) (by simpa using harg) (by simp)
    (by simpa using hfree)
  have hfront : ClockFree (interval ++ gap) :=
    ((hinterval.tame (by decide)).append (tame_of_blank hgap)).clockFree
  have hback : ClockFree (gap' ++ day) :=
    ((tame_of_blank hgap').append (hday.tame (by decide))).clockFree
  obtain ⟨c, day, rfl⟩ := List.exists_cons_of_ne_nil (hday.ne_nil (by decide))
  have hc := isWordChar_of_foldsToLetter
    (hday.forall_mem (p := fun c => foldsToLetter c = true) (fun _ => id) (by decide) c (by simp))
  have hopen : c ≠ '(' := by
    rintro rfl
    exact absurd hc (by decide)
  have h := (hfront.append hmiddle (joins_of_blank hgap hne)).append hback
    (joins_to_blank hgap' ⟨isBlank_of_isWordChar hc, hopen⟩ (Or.inl hne'))
  simpa using h

end WeekdayInterval

end AskSql.Idiom
