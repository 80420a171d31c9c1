import Mathlib.Data.Option.Basic
import AskSql.Proofs.Idiom.Levels
import AskSql.Proofs.Idiom.Plain
import AskSql.Proofs.Idiom.Tokens
import AskSql.Proofs.Sql.Backwards

/-! Where the expression inside an idiom stands.  It is a stretch of the text between the
parentheses of the call that spells the idiom, except that SQLite's time value `'now'` becomes the
keyword of a clock.  So each call inside a call is shorter, which is why looking for the clock of a
shift ends. -/

namespace AskSql.Idiom

open Text Sql

variable {text inner rest arg new : List Char}

/-! ### Stretches of a text -/

/-- `arg` is a stretch of `text`.  Where `text` is nested so is `arg`, and where literals have the
only quotes `arg` begins outside of them. -/
def Stretch (text arg : List Char) : Prop :=
  ∃ front back, text = front ++ (arg ++ back) ∧ (Nested true text → Nested true arg) ∧
    (OnlyLiterals text → insideLiteral front = false)

theorem Stretch.within (h : Stretch text arg) : arg <:+: text := by
  obtain ⟨front, back, rfl, -⟩ := h
  exact ⟨front, back, by simp⟩

theorem Stretch.nested (h : Stretch text arg) (hnested : Nested true text) : Nested true arg := by
  obtain ⟨front, back, -, hkeeps, -⟩ := h
  exact hkeeps hnested

theorem Stretch.onlyLiterals (h : Stretch text arg) (honly : OnlyLiterals text) :
    OnlyLiterals arg := by
  obtain ⟨front, back, rfl, -, hfront⟩ := h
  exact (honly.of_append (hfront honly)).of_front

theorem Stretch.refl (text : List Char) : Stretch text text :=
  ⟨[], [], by simp, id, fun _ => rfl⟩

theorem Stretch.trans (h : Stretch text inner) (h' : Stretch inner arg) : Stretch text arg := by
  have honly := h.onlyLiterals
  obtain ⟨front, back, rfl, hinner, hfront⟩ := h
  obtain ⟨first, last, rfl, harg, hfirst⟩ := h'
  refine ⟨front ++ first, last ++ back, by simp, harg ∘ hinner, fun h => ?_⟩
  rw [insideLiteral_append, hfront h, hfirst (honly h)]
  rfl

/-- What is left of a text without plain characters at its ends. -/
theorem stretch_middle {front back : List Char} (hfront : ∀ c ∈ front, isPlain c = true)
    (hback : ∀ c ∈ back, isPlain c = true) : Stretch (front ++ (arg ++ back)) arg := by
  have hplain : ∀ {c}, isPlain c = true → isMark c = false ∧ c ≠ ']' := by simp [isPlain]
  exact ⟨front, back, rfl, fun h => h.middle (fun c hc => (hplain (hfront c hc)).1)
    fun c hc => hplain (hback c hc), fun _ => insideLiteral_of_plain hfront⟩

theorem stretch_trim (text : List Char) : Stretch text (trim text) := by
  obtain ⟨gap, gap', hsplit, hgap, hgap'⟩ := exists_trim text
  rw [List.append_assoc] at hsplit
  have hstretch := @stretch_middle (trim text) gap gap' (plain_of_blank hgap) (plain_of_blank hgap')
  rwa [← hsplit] at hstretch

theorem exists_of_mem_splitArgsFrom {region : Region} {depth : Int} {piece : List Char}
    (h : arg ∈ splitArgsFrom region depth piece text) :
    ∃ front back, piece.reverse ++ text = front ++ (arg ++ back) ∧
      (OnlyLiterals (piece.reverse ++ text) →
        region = (if insideLiteral piece then .quoted '\'' else .code) →
        insideLiteral front = false) := by
  have hpiece : ∀ {piece rest : List Char}, ∃ front back,
      piece.reverse ++ rest = front ++ (trim piece.reverse ++ back) ∧
      insideLiteral front = false := by
    intro piece rest
    obtain ⟨gap, gap', hsplit, hgap, -⟩ := exists_trim piece.reverse
    refine ⟨gap, gap' ++ rest, by conv_lhs => rw [hsplit, List.append_assoc, List.append_assoc], ?_⟩
    exact insideLiteral_of_blank hgap
  induction text generalizing region depth piece with
  | nil =>
    obtain rfl : arg = trim piece.reverse := by simpa [splitArgsFrom] using h
    obtain ⟨front, back, hsplit, hfront⟩ := @hpiece piece []
    exact ⟨front, back, hsplit, fun _ _ => hfront⟩
  | cons c text ih =>
    rw [splitArgsFrom] at h
    split at h
    · rename_i hcomma
      obtain ⟨rfl, -, rfl⟩ := hcomma
      rcases List.mem_cons.1 h with rfl | hmore
      · obtain ⟨front, back, hsplit, hfront⟩ := @hpiece piece (',' :: text)
        exact ⟨front, back, hsplit, fun _ _ => hfront⟩
      · obtain ⟨front, back, hsplit, hfront⟩ := ih hmore
        refine ⟨piece.reverse ++ ',' :: front, back, by simpa using hsplit, fun honly hregion => ?_⟩
        have heven : insideLiteral (piece.reverse ++ [',']) = false := by
          have hclosed : insideLiteral piece = false := by
            by_contra hinside
            simp [hinside] at hregion
          rw [insideLiteral_append, insideLiteral_reverse, hclosed]
          rfl
        have hrest : OnlyLiterals text := by
          rw [← List.singleton_append, ← List.append_assoc] at honly
          exact honly.of_append heven
        rw [← List.singleton_append, ← List.append_assoc, insideLiteral_append, heven,
          hfront hrest rfl]
        rfl
    · obtain ⟨front, back, hsplit, hfront⟩ := ih h
      refine ⟨front, back, by simpa using hsplit, fun honly hregion => ?_⟩
      refine hfront (by simpa using honly) ?_
      rw [insideLiteral_cons]
      cases hinside : insideLiteral piece with
      | true =>
        rw [hregion, hinside]
        by_cases hc : c = '\'' <;> simp [Region.next, hc]
      | false =>
        have hkind := honly piece.reverse c text rfl (by rwa [insideLiteral_reverse])
        rw [hregion, hinside]
        by_cases hc : c = '\'' <;> simp [Region.next, Region.isQuote, hc, hkind]

theorem stretch_splitArgs (h : arg ∈ splitArgs inner) : Stretch inner arg := by
  have hfrom : arg ∈ splitArgsFrom .code 0 [] inner := by
    rw [splitArgs] at h
    split at h
    · simp at h
    · exact h
  obtain ⟨front, back, hsplit, hfront⟩ := exists_of_mem_splitArgsFrom hfrom
  refine ⟨front, back, hsplit, fun hnested => ?_, fun honly => hfront honly rfl⟩
  exact (nested_of_splitArgs (closeCall_eq_some_iff.2 ⟨rfl, hnested⟩) h).mono

/-- The parts of a text that is one call. -/
theorem callParts_split {name : List Char} (h : callParts text = some (name, inner)) :
    ∃ before gap after, text = before ++ (name ++ (gap ++ ('(' :: inner ++ [')']))) ++ after ∧
      blank before = true ∧ (∀ c ∈ name, isNameChar c = true) ∧ blank gap = true ∧
      Nested true inner := by
  simp only [callParts] at h
  split at h
  · split at h
    · rename_i cs hcs
      split at h
      · rename_i hclose
        obtain ⟨rfl, rfl⟩ := Prod.mk.inj (Option.some.inj h)
        obtain ⟨hsplit, hnested⟩ := closeCall_eq_some_iff.1 hclose
        obtain ⟨before, after, htrim, hbefore, -⟩ := exists_trim text
        obtain ⟨gap, hgap, hblank⟩ := exists_trimStart ((trim text).dropWhile isNameChar)
        refine ⟨before, gap, after, ?_, hbefore, fun c hc => List.mem_takeWhile_imp hc, hblank,
          hnested⟩
        rw [hcs, hsplit] at hgap
        have hname := @List.takeWhile_append_dropWhile _ isNameChar (trim text)
        rw [hgap] at hname
        conv_lhs => rw [htrim, ← hname]
        simp
      · contradiction
    · contradiction
  · contradiction

theorem stretch_callParts {name : List Char} (h : callParts text = some (name, inner)) :
    Stretch text inner := by
  obtain ⟨before, gap, after, rfl, hbefore, hname, hgap, hnested⟩ := callParts_split h
  have hplain : ∀ c ∈ before ++ (name ++ gap), isPlain c = true := by
    simp only [List.forall_mem_append]
    exact ⟨plain_of_blank hbefore,
      fun c hc => isPlain_of_isWordChar (isWordChar_of_isNameChar (hname c hc)),
      plain_of_blank hgap⟩
  refine ⟨before ++ (name ++ gap) ++ ['('], ')' :: after, by simp, fun _ => hnested, fun _ => ?_⟩
  rw [insideLiteral_append, insideLiteral_of_plain hplain]
  rfl

theorem length_lt_of_callParts {name : List Char} (h : callParts text = some (name, inner)) :
    inner.length < text.length := by
  obtain ⟨before, gap, after, rfl, -⟩ := callParts_split h
  simp only [List.length_append, List.length_cons]
  omega

theorem Follows.stretch (h : Follows text rest) : Stretch text rest := by
  obtain ⟨front, rfl, hfront⟩ := h
  simpa using @stretch_middle rest front [] hfront (by simp)

/-- What follows in a text read backwards comes first in it. -/
theorem Follows.stretch_reverse (h : Follows text.reverse rest) : Stretch text rest.reverse := by
  obtain ⟨front, hsplit, hfront⟩ := h
  have htext : text = [] ++ (rest.reverse ++ front.reverse) := by
    simpa using congrArg List.reverse hsplit
  rw [htext]
  exact stretch_middle (by simp) (by simpa using hfront)

theorem stretch_beforeKeyword? {word : String} (hword : ∀ c ∈ word.toList, isPlain c = true)
    (h : beforeKeyword? word text = some rest) : Stretch text rest := by
  simp only [beforeKeyword?, Option.bind_eq_bind, Option.bind_eq_some_iff, Option.pure_def,
    Option.some.injEq] at h
  obtain ⟨middle, hkeyword, cs, hblanks, rfl⟩ := h
  exact ((follows_keywordChars? (by simpa using hword) hkeyword).trans
    (follows_blanks? hblanks)).stretch_reverse

/-! ### The expression inside an idiom -/

theorem stretch_castToDate? (h : castToDate? text = some arg) : Stretch text arg := by
  simp only [castToDate?, Option.bind_eq_bind, Option.bind_eq_some_iff] at h
  obtain ⟨front, hdate, operand, has, hoperand⟩ := h
  split at hoperand
  · contradiction
  · obtain rfl := Option.some.inj hoperand
    exact (stretch_beforeKeyword? (by decide) hdate).trans (stretch_beforeKeyword? (by decide) has)

theorem stretch_partFrom? {part : DatePart} (h : partFrom? text = some (part, arg)) :
    Stretch text arg := by
  simp only [partFrom?, Option.bind_eq_bind, Option.bind_eq_some_iff] at h
  obtain ⟨part', -, h⟩ := h
  split at h
  · simp only [Option.bind_eq_some_iff] at h
    obtain ⟨afterGap, hgap, afterFrom, hfrom, operand, hblanks, hoperand⟩ := h
    split at hoperand
    · contradiction
    · obtain ⟨-, rfl⟩ := Prod.mk.inj (Option.some.inj hoperand)
      have hfollows := (((follows_word text).trans (follows_blanks? hgap)).trans
        (follows_keywordChars? (by decide) hfrom)).trans (follows_blanks? hblanks)
      exact hfollows.stretch.trans (stretch_trim operand)
  · contradiction

theorem exists_of_char? {x : Char} (h : char? x (trimStart text) = some rest) :
    ∃ gap, text = gap ++ x :: rest ∧ blank gap = true := by
  obtain ⟨gap, hgap, hblank⟩ := exists_trimStart text
  exact ⟨gap, char?_eq_some h ▸ hgap, hblank⟩

theorem cons_suffix_of_char? {x : Char} (h : char? x (trimStart text) = some rest) :
    x :: rest <:+ text := by
  obtain ⟨gap, rfl, -⟩ := exists_of_char? h
  exact List.suffix_append _ _

theorem suffix_of_char? {x : Char} (h : char? x (trimStart text) = some rest) : rest <:+ text :=
  (List.suffix_cons _ _).trans (cons_suffix_of_char? h)

/-- The offset to the Monday of `arg` has `arg` in a call of `DATEPART`. -/
theorem exists_of_weekdayOffset? (h : weekdayOffset? text = some arg) :
    ∃ front name gap before after back,
      text = front ++ (name ++ (gap ++ ('(' :: (before ++ (arg ++ after)) ++ [')']))) ++ back ∧
      insideLiteral front = false ∧ name.map fold = "datepart".toList ∧ blank gap = true ∧
      (∀ c ∈ before, c ≠ '\'' ∧ c ≠ '(' ∧ c ≠ ')') ∧ blank before = false ∧
      blank after = true := by
  simp only [weekdayOffset?, Option.bind_eq_bind, Option.bind_eq_some_iff, Option.pure_def,
    Option.some.injEq] at h
  obtain ⟨afterMinus, hminus, afterOpen, hopen, afterOpen', hopen', afterPart, hpart, cs, hcall,
    afterDay, hday, inner, hcomma, e₁, h₁, e₂, h₂, e₃, h₃, e₄, h₄, e₅, h₅, e₆, h₆, e₇, h₇, e₈, h₈,
    last, hlast, rfl⟩ := h
  obtain ⟨gap₁, hgap₁, hblank₁⟩ := exists_of_char? hopen
  obtain ⟨gap₂, hgap₂, hblank₂⟩ := exists_of_char? hopen'
  obtain ⟨gap₃, hgap₃, hblank₃⟩ := exists_trimStart afterOpen'
  obtain ⟨name, hname, hfold⟩ := keywordChars?_eq_some hpart
  obtain ⟨gap, hgap, hblank⟩ := exists_of_char? hcall
  obtain ⟨gap₄, hgap₄, hblank₄⟩ := exists_trimStart cs
  obtain ⟨day, hdayName, hdayFold⟩ := keywordChars?_eq_some hday
  obtain ⟨gap₅, hgap₅, hblank₅⟩ := exists_of_char? hcomma
  obtain ⟨gap₆, after, hgap₆, hblank₆, hafter⟩ := exists_trim last.reverse
  -- Read backwards, the operand begins behind the last parenthesis of the offset.
  have hclosing : e₁ <:+ inner.reverse := char?_eq_some h₁ ▸ List.suffix_cons _ _
  have hseven : e₃ <:+ inner.reverse :=
    (suffix_of_char? h₃).trans ((suffix_of_char? h₂).trans hclosing)
  have htwo : e₅ <:+ inner.reverse :=
    (suffix_of_char? h₅).trans ((suffix_of_char? h₄).trans hseven)
  have hdatefirst : e₇ <:+ e₆ := (keywordChars?_suffix h₇).trans (List.dropWhile_suffix _)
  have hplus : e₈ <:+ inner.reverse :=
    (suffix_of_char? h₈).trans (hdatefirst.trans ((suffix_of_char? h₆).trans htwo))
  obtain ⟨ending, hinner⟩ := (cons_suffix_of_char? hlast).trans hplus
  have hinner : inner = last.reverse ++ ')' :: ending.reverse := by
    simpa using (congrArg List.reverse hinner).symm
  have hbefore : ∀ {gap : List Char}, (∀ c ∈ gap, isPlain c = true) →
      ∀ c ∈ gap, c ≠ '\'' ∧ c ≠ '(' ∧ c ≠ ')' := fun h c hc => by
    refine ⟨?_, ne_of_isPlain (h c hc)⟩
    rintro rfl
    exact absurd (h _ hc) (by decide)
  refine ⟨'-' :: (gap₁ ++ '(' :: (gap₂ ++ '(' :: gap₃)), name, gap,
    gap₄ ++ (day ++ (gap₅ ++ ',' :: gap₆)), after, ending.reverse, ?_, ?_, hfold, hblank, ?_, ?_,
    hafter⟩
  · conv_lhs => rw [char?_eq_some hminus, hgap₁, hgap₂, hgap₃, hname, hgap, hgap₄, hdayName, hgap₅,
      hinner, hgap₆]
    simp
  · simp only [insideLiteral_cons, insideLiteral_append, insideLiteral_of_blank hblank₁,
      insideLiteral_of_blank hblank₂, insideLiteral_of_blank hblank₃]
    rfl
  · have hkey : ∀ c ∈ day, isPlain c = true := fun c hc => by
      have hplain : ∀ x ∈ "weekday".toList, isPlain x = true := by decide
      exact isPlain_of_fold (hplain _ (hdayFold ▸ List.mem_map_of_mem hc))
    simp only [List.forall_mem_append, List.forall_mem_cons]
    exact ⟨hbefore (plain_of_blank hblank₄), hbefore hkey, hbefore (plain_of_blank hblank₅),
      by decide, hbefore (plain_of_blank hblank₆)⟩
  · cases day with
    | nil => contradiction
    | cons c day =>
      have hw : fold c = 'w' := (List.cons.inj hdayFold).1
      have hc : isBlank c = false := isBlank_of_isWordChar (isWordChar_of_foldsToLetter (by
        rw [foldsToLetter, hw]
        rfl))
      simp [blank, hc]

theorem alignedWeek?_eq_some {unit offset base : List Char}
    (h : alignedWeek? unit offset base = some arg) :
    weekdayOffset? (trim offset) = some arg ∧ Stretch base arg := by
  simp only [alignedWeek?, Option.bind_eq_bind, Option.bind_eq_some_iff] at h
  obtain ⟨part, -, h⟩ := h
  split at h
  · simp at h
  · simp only [Option.bind_eq_some_iff, Option.bind_none] at h
    obtain ⟨weekday, hweekday, ⟨name, body⟩, hparts, h⟩ := h
    split at h
    · cases h
    · obtain ⟨operand, hcast, h⟩ := Option.bind_eq_some_iff.1 h
      split at h
      · rename_i hsame
        obtain rfl := Option.some.inj h
        exact ⟨hsame ▸ hweekday, (((stretch_callParts hparts).trans (stretch_trim body)).trans
          (stretch_castToDate? hcast)).trans (stretch_trim operand)⟩
      · cases h

theorem weekdayInterval?_eq_some {base interval : List Char}
    (h : weekdayInterval? base interval = some arg) :
    ∃ name operand, callParts base = some (name, operand) ∧
      DateFunction.ofName? name = some .date ∧ arg = trim operand := by
  simp only [weekdayInterval?, Option.bind_eq_bind, Option.bind_eq_some_iff, Option.bind_none] at h
  obtain ⟨⟨name, operand⟩, hparts, h⟩ := h
  split at h
  · cases h
  · rename_i hname
    simp only [Option.bind_eq_some_iff] at h
    obtain ⟨afterWord, -, cs, -, front, -, ⟨weekday, inner⟩, -, h⟩ := h
    split at h
    · exact ⟨name, operand, hparts, not_not.1 hname, (Option.some.inj h).symm⟩
    · cases h

theorem flooredDate?_eq_some {unit amount base : List Char} {idiom : Idiom}
    (h : flooredDate? unit amount base = some idiom) :
    ∃ part name inner unit zero arg, callParts amount = some (name, inner) ∧
      sameAscii name "DATEDIFF".toList = true ∧ splitArgs inner = [unit, zero, arg] ∧
      idiom = .truncate part arg := by
  simp only [flooredDate?, Option.bind_eq_bind, Option.bind_eq_some_iff, Option.bind_none] at h
  obtain ⟨part, -, h⟩ := h
  split at h
  · cases h
  · obtain ⟨⟨name, inner⟩, hparts, h⟩ := Option.bind_eq_some_iff.1 h
    split at h
    · cases h
    · rename_i hname
      split at h
      · rename_i unit' zero arg hsplit
        split at h
        · exact ⟨part, name, inner, unit', zero, arg, hparts, by simpa using hname, hsplit,
            (Option.some.inj h).symm⟩
        · cases h
      · cases h

/-- `arg` is a stretch of an argument in `args`, or the keyword of a clock. -/
def FromArgs (args : List (List Char)) (arg : List Char) : Prop :=
  (∃ a ∈ args, Stretch a arg) ∨ ∃ clock, arg = clockWord clock

theorem fromArgs_of_mem {args : List (List Char)} (h : arg ∈ args) : FromArgs args arg :=
  Or.inl ⟨arg, h, .refl arg⟩

theorem fromArgs_dateCall? {clock : Clock} {args : List (List Char)} {idiom : Idiom}
    (h : dateCall? clock args = some idiom) (harg : operand? idiom = some arg) :
    FromArgs args arg := by
  unfold dateCall? at h
  split at h
  · split at h
    · obtain rfl := Option.some.inj h
      contradiction
    · split at h
      · obtain rfl := Option.some.inj h
        obtain rfl := Option.some.inj harg
        exact fromArgs_of_mem (by simp)
      · contradiction
  · dsimp only at h
    split at h
    · obtain rfl := Option.some.inj h
      obtain rfl := Option.some.inj harg
      exact fromArgs_of_mem (by simp)
    · split at h
      · obtain rfl := Option.some.inj h
        obtain rfl := Option.some.inj harg
        exact fromArgs_of_mem (by simp)
      · split at h
        · obtain rfl := Option.some.inj h
          obtain rfl := Option.some.inj harg
          exact fromArgs_of_mem (by simp)
        · split at h
          · contradiction
          · obtain rfl := Option.some.inj h
            obtain rfl := Option.some.inj harg
            split
            · cases clock
              · exact Or.inr ⟨.date, rfl⟩
              · exact Or.inr ⟨.now, rfl⟩
            · exact fromArgs_of_mem (by simp)
  · split at h
    · obtain rfl := Option.some.inj h
      obtain rfl := Option.some.inj harg
      exact fromArgs_of_mem (by simp)
    · contradiction
  · contradiction

/-- The expression inside the idiom that a call spells comes from an argument of the call. -/
theorem fromArgs_recogniseWith {clockOf : List Char → TimeUnit → Clock} {function : DateFunction}
    {args : List (List Char)} {idiom : Idiom} (h : recogniseWith clockOf function args = some idiom)
    (harg : operand? idiom = some arg) : FromArgs args arg := by
  unfold recogniseWith at h
  split at h
  · split at h
    · contradiction
    · obtain rfl := Option.some.inj h
      obtain rfl := Option.some.inj harg
      exact fromArgs_of_mem (by simp)
  · obtain ⟨part, -, rfl⟩ := Option.map_eq_some_iff.1 h
    obtain rfl := Option.some.inj harg
    exact fromArgs_of_mem (by simp)
  · -- EXTRACT
    obtain ⟨⟨part, found⟩, hpart, rfl⟩ := Option.map_eq_some_iff.1 h
    obtain rfl := Option.some.inj harg
    exact Or.inl ⟨_, by simp, stretch_partFrom? hpart⟩
  · obtain ⟨part, -, rfl⟩ := Option.map_eq_some_iff.1 h
    obtain rfl := Option.some.inj harg
    exact fromArgs_of_mem (by simp)
  · obtain rfl := Option.some.inj h
    contradiction
  · obtain rfl := Option.some.inj h
    contradiction
  · split at h
    · split at h
      · obtain rfl := Option.some.inj h
        contradiction
      · contradiction
    · contradiction
  · exact fromArgs_dateCall? h harg
  · exact fromArgs_dateCall? h harg
  · -- DATEADD
    split at h
    · obtain ⟨unit, -, rfl⟩ := Option.map_eq_some_iff.1 h
      obtain rfl := Option.some.inj harg
      exact fromArgs_of_mem (by simp)
    · split at h
      · rename_i haligned
        obtain rfl := Option.some.inj h
        obtain rfl := Option.some.inj harg
        exact Or.inl ⟨_, by simp, (alignedWeek?_eq_some haligned).2⟩
      · obtain ⟨part, name, inner, unit, zero, arg', hparts, -, hsplit, rfl⟩ :=
          flooredDate?_eq_some h
        obtain rfl := Option.some.inj harg
        exact Or.inl ⟨_, by simp,
          (stretch_callParts hparts).trans (stretch_splitArgs (by simp [hsplit]))⟩
  · obtain ⟨⟨amount, unit⟩, -, rfl⟩ := Option.map_eq_some_iff.1 h
    obtain rfl := Option.some.inj harg
    exact fromArgs_of_mem (by simp)
  · -- DATE_SUB
    split at h
    · rename_i hweek
      obtain rfl := Option.some.inj h
      obtain rfl := Option.some.inj harg
      obtain ⟨name, operand, hparts, -, rfl⟩ := weekdayInterval?_eq_some hweek
      exact Or.inl ⟨_, by simp, (stretch_callParts hparts).trans (stretch_trim operand)⟩
    · split at h
      · obtain ⟨amount, -, rfl⟩ := Option.map_eq_some_iff.1 h
        obtain rfl := Option.some.inj harg
        exact fromArgs_of_mem (by simp)
      · contradiction
  · obtain ⟨part, -, rfl⟩ := Option.map_eq_some_iff.1 h
    obtain rfl := Option.some.inj harg
    exact fromArgs_of_mem (by simp)
  · obtain ⟨part, -, rfl⟩ := Option.map_eq_some_iff.1 h
    obtain rfl := Option.some.inj harg
    exact fromArgs_of_mem (by simp)
  · contradiction

/-! ### Calls that are asked for -/

/-- The call of `name` with `inner` between its parentheses spells `idiom`. -/
structure IdiomCall (idiom : Idiom) (name gap inner : List Char) : Prop where
  word : ∀ c ∈ name, isWordChar c = true
  gap : blank gap = true
  nested : Nested true inner
  recognised : ∃ function, DateFunction.ofName? name = some function ∧
    recognise function (splitArgs inner) = some idiom

section

variable {idiom : Idiom} {name gap : List Char} (h : IdiomCall idiom name gap inner)

include h

theorem IdiomCall.plain : ∀ c ∈ name ++ gap, isPlain c = true :=
  List.forall_mem_append.2
    ⟨fun c hc => isPlain_of_isWordChar (h.word c hc), plain_of_blank h.gap⟩

theorem IdiomCall.name_ne_nil : name ≠ [] := by
  rintro rfl
  obtain ⟨function, hname, -⟩ := h.recognised
  contradiction

/-- The expression inside the idiom comes from between the parentheses. -/
theorem IdiomCall.operand (harg : arg ∈ operand? idiom) :
    Stretch inner arg ∨ ∃ clock, arg = clockWord clock := by
  obtain ⟨function, -, hfound⟩ := h.recognised
  rcases fromArgs_recogniseWith hfound harg with ⟨a, ha, hstretch⟩ | hclock
  · exact Or.inl ((stretch_splitArgs ha).trans hstretch)
  · exact Or.inr hclock

end

theorem exists_of_askedCall? {idiom : Idiom} (h : askedCall? text = some (idiom, rest)) :
    ∃ name gap inner, text = name ++ (gap ++ ('(' :: inner ++ [')'])) ++ rest ∧
      IdiomCall idiom name gap inner := by
  simp only [askedCall?, callAt?, Option.bind_eq_bind, Option.bind_eq_some_iff, Option.pure_def,
    Option.some.injEq] at h
  obtain ⟨⟨function, inner, left⟩, ⟨function', hname, cs, hopen, ⟨inner', left'⟩, hclose, heq⟩,
    found, hfound, hidiom⟩ := h
  simp only [Prod.mk.injEq] at heq hidiom
  obtain ⟨rfl, rfl, rfl⟩ := heq
  obtain ⟨rfl, rfl⟩ := hidiom
  obtain ⟨hsplit, hnested⟩ := closeCall_eq_some_iff.1 hclose
  obtain ⟨gap, hgap, hblank⟩ := exists_trimStart (word text).2
  refine ⟨(word text).1, gap, inner', ?_, fun c hc => List.mem_takeWhile_imp hc, hblank, hnested,
    function', hname, hfound⟩
  rw [char?_eq_some hopen, hsplit] at hgap
  calc text = (word text).1 ++ (word text).2 := List.takeWhile_append_dropWhile.symm
    _ = (word text).1 ++ (gap ++ ('(' :: inner' ++ [')'])) ++ left' := by rw [hgap]; simp

/-- The words that a scan tries stand outside of literals. -/
theorem exists_of_mem_wordsTriedFrom {rewriteAt? : List Char → Option (List Char × Nat)}
    {before : Option Char} {literal : Bool} {skip : Nat} {cs : List Char}
    (h : cs ∈ wordsTriedFrom rewriteAt? before literal skip text) :
    ∃ front, text = front ++ cs ∧ (literal != insideLiteral front) = false := by
  induction text generalizing before literal skip with
  | nil => simp [wordsTriedFrom] at h
  | cons c text ih =>
    have hrest :
        ∀ {skip}, cs ∈ wordsTriedFrom rewriteAt? (some c) (literal != (c == '\'')) skip text →
        ∃ front, c :: text = front ++ cs ∧ (literal != insideLiteral front) = false := by
      intro skip h
      obtain ⟨front, rfl, hfront⟩ := ih h
      refine ⟨c :: front, rfl, ?_⟩
      rw [← hfront, insideLiteral_cons]
      cases literal <;> cases c == '\'' <;> cases insideLiteral front <;> rfl
    cases skip with
    | succ skip => exact hrest h
    | zero =>
      rw [wordsTriedFrom] at h
      split at h
      · exact hrest h
      · rename_i htried
        obtain rfl : literal = false := by
          by_contra hliteral
          simp [hliteral] at htried
        split at h
        all_goals
          rcases List.mem_cons.1 h with rfl | h
          · exact ⟨[], rfl, rfl⟩
          · exact hrest h

/-- A call that a text asks for stands outside of literals. -/
theorem exists_of_mem_callsAsked {write : Idiom → Option (List Char)} {idiom : Idiom}
    (h : idiom ∈ callsAsked write text) :
    ∃ front name gap inner rest,
      text = front ++ (name ++ (gap ++ ('(' :: inner ++ [')']))) ++ rest ∧
      insideLiteral front = false ∧ IdiomCall idiom name gap inner := by
  obtain ⟨cs, hcs, hasked⟩ := List.mem_filterMap.1 h
  obtain ⟨⟨asked, rest⟩, hcall, rfl⟩ := Option.map_eq_some_iff.1 hasked
  obtain ⟨front, rfl, hfront⟩ := exists_of_mem_wordsTriedFrom hcs
  obtain ⟨name, gap, inner, rfl, hidiom⟩ := exists_of_askedCall? hcall
  exact ⟨front, name, gap, inner, rest, by simp, by simpa using hfront, hidiom⟩

/-! ### What is written anew -/

/-- The characters of a text that stand before a rest of it. -/
theorem take_of_append {front : List Char} (h : text = front ++ rest) :
    text.take (text.length - rest.length) = front := by
  simp [h]

/-- A clock keyword is a word with an underscore, perhaps with empty parentheses behind it. -/
theorem exists_of_rewriteClockAt? {write : Clock → List Char} {length : Nat}
    (h : rewriteClockAt? write text = some (new, length)) :
    ∃ clock word parens, new = write clock ∧ text.take length = word ++ parens ∧ 0 < length ∧
      '_' ∈ word ∧ (∀ c ∈ word, isWordChar c = true) ∧
      (parens = [] ∨ ∃ gap gap', parens = gap ++ '(' :: (gap' ++ [')']) ∧ blank gap = true ∧
        blank gap' = true) := by
  simp only [rewriteClockAt?, clockAt?, Option.map_map, Option.map_eq_some_iff] at h
  obtain ⟨clock, hclock, heq⟩ := h
  obtain ⟨rfl, rfl⟩ := Prod.mk.inj heq
  have hmem : '_' ∈ (word text).1 := by
    by_contra hno
    rw [clockKeyword?_of_not_mem hno] at hclock
    contradiction
  have hword : text = (word text).1 ++ (word text).2 := List.takeWhile_append_dropWhile.symm
  obtain ⟨parens, hparens, hform⟩ : ∃ parens,
      (word text).2 = parens ++ (emptyParens? (word text).2).getD (word text).2 ∧
      (parens = [] ∨ ∃ gap gap', parens = gap ++ '(' :: (gap' ++ [')']) ∧ blank gap = true ∧
        blank gap' = true) := by
    cases hempty : emptyParens? (word text).2 with
    | none => exact ⟨[], rfl, Or.inl rfl⟩
    | some rest =>
      simp only [emptyParens?, Option.bind_eq_bind, Option.bind_eq_some_iff] at hempty
      obtain ⟨cs, hopen, hclose⟩ := hempty
      obtain ⟨gap, hgap, hblank⟩ := exists_trimStart (word text).2
      obtain ⟨gap', hgap', hblank'⟩ := exists_trimStart cs
      rw [char?_eq_some hclose] at hgap'
      rw [char?_eq_some hopen, hgap'] at hgap
      exact ⟨gap ++ '(' :: (gap' ++ [')']),
        by simpa using hgap, Or.inr ⟨gap, gap', rfl, hblank, hblank'⟩⟩
  generalize hrest : (emptyParens? (word text).2).getD (word text).2 = rest at hparens
  have hsplit : text = ((word text).1 ++ parens) ++ rest := by
    conv_lhs => rw [hword, hparens]
    simp
  have hlength := congrArg List.length hsplit
  have hpos := List.length_pos_of_mem hmem
  simp only [List.length_append] at hlength
  refine ⟨clock, (word text).1, parens, rfl, ?_, ?_, hmem,
    fun _ hc => List.mem_takeWhile_imp hc, hform⟩
  · exact take_of_append hsplit
  · dsimp only
    omega

/-- A call that is written anew. -/
theorem exists_of_rewriteCallAt? {write : Idiom → Option (List Char)} {length : Nat}
    (h : rewriteCallAt? write text = some (new, length)) :
    ∃ idiom name gap inner, write idiom = some new ∧
      text.take length = name ++ (gap ++ ('(' :: inner ++ [')'])) ∧ 0 < length ∧
      IdiomCall idiom name gap inner := by
  rw [rewriteCallAt?_eq, Option.bind_eq_some_iff] at h
  obtain ⟨⟨idiom, rest⟩, hasked, h⟩ := h
  obtain ⟨made, hwrite, h⟩ := Option.bind_eq_some_iff.1 h
  split at h
  · contradiction
  · obtain ⟨rfl, rfl⟩ := Prod.mk.inj (Option.some.inj h)
    obtain ⟨name, gap, inner, hsplit, hcall⟩ := exists_of_askedCall? hasked
    have hlength := congrArg List.length hsplit
    simp only [List.length_append, List.length_cons] at hlength
    exact ⟨idiom, name, gap, inner, hwrite, take_of_append hsplit, by omega, hcall⟩

/-! ### The interval of a shift -/

/-- A shift that is asked for, with the parts of the text that it stands for: its operand, the sign
between blanks, and the interval. -/
theorem exists_of_shift {before cs start : List Char} {sign : Char} {idiom : Idiom}
    (h : askedShift? before sign cs = some (idiom, start, rest)) :
    ∃ operand gap space keyword more unit amount,
      before.reverse ++ sign :: cs =
        start.reverse ++ (operand ++ gap ++ sign :: (space ++ (keyword ++ more)) ++ rest) ∧
      rest <:+ cs ∧ insideLiteral before = false ∧ operandBefore before = some (operand, start) ∧
      (∀ c ∈ gap, isAsciiBlank c = true) ∧ blank space = true ∧
      keyword.map fold = "interval".toList ∧
      ((∀ c ∈ more, c ≠ '(' ∧ c ≠ ')') ∧ insideLiteral more = false) ∧
      idiom = .shift unit amount (trimEnd operand) (clockOf (trimEnd operand) unit) := by
  obtain ⟨interval, operand, unit, amount, houtside, hscan, hoperand, rfl, rfl⟩ :=
    exists_of_askedShift? h
  obtain ⟨gap, hbefore, hgap⟩ := operandBefore_split hoperand
  obtain ⟨space, hspace, hblank⟩ := exists_trimStart cs
  obtain ⟨keyword, more, hleft, hkeyword, hmore⟩ := exists_of_scanInterval? hscan
  have hcs : cs = space ++ (keyword ++ more) ++ interval.rest := by
    rw [hspace, hleft]
    simp
  refine ⟨operand, gap, space, keyword, more, unit, amount, ?_, ?_, houtside, hoperand,
    hgap, hblank, hkeyword, hmore.outside, rfl⟩
  · conv_lhs => rw [hbefore, hcs]
    simp
  · exact hcs ▸ List.suffix_append _ _

/-! ### The clock of a shift -/

theorem recogniseWith_congr {clockOf clockOf' : List Char → TimeUnit → Clock}
    {function : DateFunction} {args : List (List Char)}
    (h : ∀ arg ∈ args, ∀ unit, clockOf arg unit = clockOf' arg unit) :
    recogniseWith clockOf function args = recogniseWith clockOf' function args := by
  unfold recogniseWith
  split <;> try rfl
  · -- DATEADD
    rename_i base
    simp only [h base (by simp)]
  · rename_i base interval
    simp only [h base (by simp)]
  · rename_i base interval
    simp only [h base (by simp)]

/-- The search for the clock of a shift comes to its result within as many levels as its base has
characters, and one more. -/
theorem clockWithin_eq_clockOf {base : List Char} {unit : TimeUnit} {depth : Nat}
    (h : base.length < depth) : clockWithin depth base unit = clockOf base unit := by
  suffices hsame : ∀ depth depth' base, base.length < depth → base.length < depth' →
      clockWithin depth base unit = clockWithin depth' base unit from
    hsame depth _ base h (Nat.lt_succ_self _)
  clear h
  intro depth depth'
  induction depth generalizing depth' unit with
  | zero => intro base h; omega
  | succ depth ih =>
    intro base h h'
    obtain ⟨depth', rfl⟩ : ∃ d, depth' = d + 1 := ⟨depth' - 1, by omega⟩
    simp only [clockWithin]
    cases hparts : callParts (trim base) with
    | none => rfl
    | some parts =>
      obtain ⟨name, inner⟩ := parts
      have hsame : ∀ function, recogniseWith (clockWithin depth) function (splitArgs inner) =
          recogniseWith (clockWithin depth') function (splitArgs inner) := fun function => by
        refine recogniseWith_congr fun arg harg unit => ?_
        have harg := (stretch_splitArgs harg).within.length_le
        have hinner := length_lt_of_callParts hparts
        have htrim := (stretch_trim base).within.length_le
        exact ih depth' arg (by omega) (by omega)
      simp only [hsame]

end AskSql.Idiom
