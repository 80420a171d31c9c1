import AskSql.Proofs.Sql.Written

/-! What can stand as an argument of a call, by its grammar: pieces of plain text, quoted texts with
their quote written twice inside, texts in square brackets, and texts in parentheses, of which only
the last may hold a comma.  The two scans over a call, for the parenthesis that closes it and for
the commas between its arguments, each keep account of quotes, brackets and parentheses.  They agree
with each other and with the grammar: a call of trimmed arguments is read back as its name and its
arguments exactly if every argument is of that form. -/

namespace AskSql.Sql

open Text

/-- Text whose quotes, brackets and parentheses are closed.  Commas stand in it only where they are
quoted or in parentheses, unless `commas` allows them anywhere. -/
inductive Nested : Bool → List Char → Prop
  | nil (commas : Bool) : Nested commas []
  | plain {commas : Bool} {c : Char} {rest : List Char} (hc : isMark c = false)
      (hrest : Nested commas rest) : Nested commas (c :: rest)
  | comma {rest : List Char} (hrest : Nested true rest) : Nested true (',' :: rest)
  | quoted {commas : Bool} {quote : Char} {rest : List Char} (hquote : Region.isQuote quote = true)
      (content : List Char) (hrest : Nested commas rest) :
      Nested commas (quote :: doubled quote content ++ quote :: rest)
  | bracketed {commas : Bool} {content rest : List Char} (hcontent : ']' ∉ content)
      (hrest : Nested commas rest) : Nested commas ('[' :: content ++ ']' :: rest)
  | parenthesised {commas : Bool} {inner rest : List Char} (hinner : Nested true inner)
      (hrest : Nested commas rest) : Nested commas ('(' :: inner ++ ')' :: rest)

variable {region : Region} {depth : Nat} {text rest : List Char}

/-! ### The scan over an argument follows the grammar -/

theorem nestStep_of_not_isMark {c : Char} (h : isMark c = false) (depth : Nat) :
    nestStep (.code, depth) c = some (.code, depth) := by
  simp only [isMark, Bool.or_eq_false_iff, beq_eq_false_iff_ne] at h
  obtain ⟨⟨⟨⟨hquote, hbracket⟩, hopen⟩, hclose⟩, hcomma⟩ := h
  simp [nestStep, Region.next, hquote, hbracket, hopen, hclose, hcomma]

theorem nestStep_quote {quote : Char} (h : Region.isQuote quote = true) (depth : Nat) :
    nestStep (.code, depth) quote = some (.quoted quote, depth) := by
  have hne : quote ≠ ')' ∧ quote ≠ '(' ∧ quote ≠ ',' := by
    refine ⟨?_, ?_, ?_⟩ <;> rintro rfl <;> exact absurd h (by decide)
  simp [nestStep, Region.next, h, hne]

theorem nestStep_quoted (quote c : Char) (depth : Nat) :
    nestStep (.quoted quote, depth) c =
      some (if c = quote then .code else .quoted quote, depth) := by
  simp [nestStep, Region.next]

/-- A quote written twice leaves the quotes and enters them again. -/
theorem nest_doubled {quote : Char} (h : Region.isQuote quote = true) (content : List Char)
    (depth : Nat) :
    nest (.quoted quote, depth) (doubled quote content) = some (.quoted quote, depth) := by
  induction content with
  | nil => rfl
  | cons c content ih =>
    rw [doubled, List.flatMap_cons, nest_append, ← doubled]
    split
    · simpa [nestStep_quoted, nestStep_quote h] using ih
    · rename_i hc
      simpa [nestStep_quoted, hc] using ih

theorem nestStep_bracketed (c : Char) (depth : Nat) :
    nestStep (.bracketed, depth) c = some (if c = ']' then .code else .bracketed, depth) := by
  simp [nestStep, Region.next]

theorem nest_bracketed {content : List Char} (h : ']' ∉ content) (depth : Nat) :
    nest (.bracketed, depth) content = some (.bracketed, depth) := by
  induction content with
  | nil => rfl
  | cons c content ih =>
    have hc : c ≠ ']' := by
      rintro rfl
      simp at h
    rw [nest_cons, nestStep_bracketed, if_neg hc, Option.bind_some]
    exact ih fun hmem => h (List.mem_cons_of_mem c hmem)

/-- The scan over a text that is nested comes back to where it began; commas need a parenthesis that
is open. -/
theorem Nested.nest_eq {commas : Bool} (h : Nested commas text) {depth : Nat}
    (hdepth : commas = true → 0 < depth) : nest (.code, depth) text = some (.code, depth) := by
  induction h generalizing depth with
  | nil => rfl
  | plain hc _ ih =>
    rw [nest_cons, nestStep_of_not_isMark hc, Option.bind_some]
    exact ih hdepth
  | comma _ ih =>
    have hne : depth ≠ 0 := Nat.ne_of_gt (hdepth rfl)
    simpa [nestStep, Region.next, Region.isQuote, hne] using ih hdepth
  | @quoted _ quote _ hquote content _ ih =>
    rw [List.cons_append, nest_cons, nestStep_quote hquote, Option.bind_some, nest_append,
      nest_doubled hquote, Option.bind_some, nest_cons, nestStep_quoted, if_pos rfl,
      Option.bind_some]
    exact ih hdepth
  | bracketed hcontent _ ih =>
    have henter : nestStep (.code, depth) '[' = some (.bracketed, depth) := by
      simp [nestStep, Region.next, Region.isQuote]
    rw [List.cons_append, nest_cons, henter, Option.bind_some, nest_append, nest_bracketed hcontent,
      Option.bind_some, nest_cons, nestStep_bracketed, if_pos rfl, Option.bind_some]
    exact ih hdepth
  | parenthesised _ _ ihinner ihrest =>
    have hopen : nestStep (.code, depth) '(' = some (.code, depth + 1) := by simp [nestStep]
    have hclose : nestStep (.code, depth + 1) ')' = some (.code, depth) := by simp [nestStep]
    rw [List.cons_append, nest_cons, hopen, Option.bind_some, nest_append,
      ihinner fun _ => Nat.succ_pos depth, Option.bind_some, nest_cons, hclose, Option.bind_some]
    exact ihrest hdepth

/-! ### The grammar follows the scan -/

/-- A scan that leaves the quotes or brackets in which it stands has passed the character that ends
them. -/
theorem exists_of_nest {inside : Region} {closing : Char} {final : Nat}
    (hstep : ∀ c, nestStep (inside, depth) c = some (if c = closing then .code else inside, depth))
    (hinside : inside ≠ .code) (h : nest (inside, depth) text = some (.code, final)) :
    ∃ content rest, closing ∉ content ∧ text = content ++ closing :: rest ∧
      nest (.code, depth) rest = some (.code, final) := by
  induction text with
  | nil => simp [hinside] at h
  | cons c text ih =>
    rw [nest_cons, hstep, Option.bind_some] at h
    split at h
    · rename_i hc
      subst hc
      exact ⟨[], text, by simp, rfl, h⟩
    · rename_i hc
      obtain ⟨content, rest, hcontent, rfl, hrest⟩ := ih h
      exact ⟨c :: content, rest, by simpa [Ne.symm hc] using hcontent, rfl, hrest⟩

/-- A scan that ends outside of everything has passed a nested text, up to the parenthesis that
closes the one it began in, if it began in one. -/
theorem exists_nested (h : nest (.code, depth) text = some (.code, 0)) :
    ∃ piece back, text = piece ++ back ∧ Nested (decide (0 < depth)) piece ∧
      ((back = [] ∧ depth = 0) ∨
        ∃ rest, back = ')' :: rest ∧ 0 < depth ∧
          nest (.code, depth - 1) rest = some (.code, 0)) := by
  -- Behind a parenthesis the scan goes on twice, inside it and after it.
  induction hlength : text.length using Nat.strongRecOn generalizing text depth with
  | ind length ih =>
    subst hlength
    cases text with
    | nil =>
      obtain rfl : depth = 0 := by simpa using h
      exact ⟨[], [], rfl, .nil _, .inl ⟨rfl, rfl⟩⟩
    | cons c text =>
      have hgo : ∀ {rest : List Char}, rest.length ≤ text.length →
          nest (.code, depth) rest = some (.code, 0) → ∃ piece back, rest = piece ++ back ∧
            Nested (decide (0 < depth)) piece ∧ ((back = [] ∧ depth = 0) ∨
              ∃ rest, back = ')' :: rest ∧ 0 < depth ∧
                nest (.code, depth - 1) rest = some (.code, 0)) :=
        fun hle hrest => ih _ (Nat.lt_succ_of_le hle) hrest rfl
      by_cases hclose : c = ')'
      · subst hclose
        have hpos : depth ≠ 0 := by
          rintro rfl
          simp [nestStep] at h
        exact ⟨[], ')' :: text, rfl, .nil _,
          .inr ⟨text, rfl, Nat.pos_of_ne_zero hpos, by simpa [nestStep, hpos] using h⟩⟩
      by_cases hopen : c = '('
      · subst hopen
        have hinside : nest (.code, depth + 1) text = some (.code, 0) := by
          simpa [nestStep] using h
        obtain ⟨inner, _, rfl, hinner, ⟨-, hzero⟩ | ⟨rest, rfl, -, hrest⟩⟩ :=
          ih _ (Nat.lt_succ_self _) hinside rfl
        · simp at hzero
        · obtain ⟨piece, back, rfl, hpiece, hback⟩ := hgo (by simp; omega) hrest
          exact ⟨'(' :: inner ++ ')' :: piece, back, by simp,
            .parenthesised (by simpa using hinner) hpiece, hback⟩
      by_cases hquote : Region.isQuote c = true
      · rw [nest_cons, nestStep_quote hquote, Option.bind_some] at h
        obtain ⟨content, rest, hcontent, rfl, hrest⟩ :=
          exists_of_nest (nestStep_quoted c · depth) (by simp) h
        obtain ⟨piece, back, rfl, hpiece, hback⟩ := hgo (by simp; omega) hrest
        have hnested := Nested.quoted hquote content hpiece
        rw [doubled_of_not_mem hcontent] at hnested
        exact ⟨c :: content ++ c :: piece, back, by simp, hnested, hback⟩
      by_cases hbracket : c = '['
      · subst hbracket
        have henter : nestStep (.code, depth) '[' = some (.bracketed, depth) := by
          simp [nestStep, Region.next, Region.isQuote]
        rw [nest_cons, henter, Option.bind_some] at h
        obtain ⟨content, rest, hcontent, rfl, hrest⟩ :=
          exists_of_nest (nestStep_bracketed · depth) (by simp) h
        obtain ⟨piece, back, rfl, hpiece, hback⟩ := hgo (by simp; omega) hrest
        exact ⟨'[' :: content ++ ']' :: piece, back, by simp, .bracketed hcontent hpiece, hback⟩
      by_cases hcomma : c = ','
      · subst hcomma
        have hpos : depth ≠ 0 := by
          rintro rfl
          simp [nestStep] at h
        have hstep : nestStep (.code, depth) ',' = some (.code, depth) := by
          simp [nestStep, Region.next, Region.isQuote, hpos]
        rw [nest_cons, hstep, Option.bind_some] at h
        obtain ⟨piece, back, rfl, hpiece, hback⟩ := hgo (Nat.le_refl _) h
        have htrue : decide (0 < depth) = true := by simpa using Nat.pos_of_ne_zero hpos
        rw [htrue] at hpiece ⊢
        exact ⟨',' :: piece, back, rfl, .comma hpiece, hback⟩
      · have hmark : isMark c = false := by simp [isMark, hquote, hbracket, hopen, hclose, hcomma]
        rw [nest_cons, nestStep_of_not_isMark hmark, Option.bind_some] at h
        obtain ⟨piece, back, rfl, hpiece, hback⟩ := hgo (Nat.le_refl _) h
        exact ⟨c :: piece, back, rfl, .plain hmark hpiece, hback⟩

/-- The scan over an argument accepts the texts of the grammar and no others. -/
theorem closed_iff_nested : Closed text ↔ Nested false text := by
  refine ⟨fun h => ?_, fun h => h.nest_eq (by simp)⟩
  obtain ⟨piece, back, rfl, hpiece, ⟨rfl, -⟩ | ⟨-, -, hpos, -⟩⟩ := exists_nested h
  · simpa using hpiece
  · simp at hpos

/-! ### What is read back -/

/-- A text is its trimmed self with white space around it. -/
theorem padded_trim (text : List Char) : Padded (trim text) text := by
  refine ⟨text.takeWhile isBlank, ((trimStart text).reverse.takeWhile isBlank).reverse, ?_, ?_, ?_⟩
  · exact List.all_takeWhile
  · rw [blank, List.all_reverse]
    exact List.all_takeWhile
  · rw [trim, trimEnd, List.append_assoc, ← List.reverse_append, List.takeWhile_append_dropWhile,
      List.reverse_reverse, trimStart, List.takeWhile_append_dropWhile]

/-- A scan from outside of quotes enters them by a quote only. -/
theorem isQuote_of_nest {quote : Char} {final : Nat}
    (hregion : ∀ quote, region = .quoted quote → Region.isQuote quote = true)
    (h : nest (region, depth) text = some (.quoted quote, final)) :
    Region.isQuote quote = true := by
  induction text generalizing region depth with
  | nil =>
    obtain ⟨rfl, -⟩ : region = .quoted quote ∧ depth = final := by simpa using h
    exact hregion quote rfl
  | cons c text ih =>
    rw [nest_cons, Option.bind_eq_some_iff] at h
    obtain ⟨⟨middle, between⟩, hstep, hrest⟩ := h
    refine ih (fun quote hquote => ?_) hrest
    subst hquote
    cases region with
    | code =>
      simp only [nestStep, Region.next] at hstep
      grind
    | quoted quote' =>
      have := hregion quote' rfl
      rw [nestStep_quoted] at hstep
      grind
    | bracketed =>
      rw [nestStep_bracketed] at hstep
      grind

/-- White space neither leaves quotes or brackets nor closes a parenthesis. -/
theorem nest_blank (hregion : ∀ quote, region = .quoted quote → Region.isQuote quote = true)
    (h : blank text = true) (depth : Nat) : nest (region, depth) text = some (region, depth) := by
  induction text with
  | nil => rfl
  | cons c text ih =>
    obtain ⟨hc, htext⟩ : isBlank c = true ∧ blank text = true := by simpa [blank] using h
    have hmark := isMark_of_isBlank hc
    have hstep : nestStep (region, depth) c = some (region, depth) := by
      cases region with
      | code => exact nestStep_of_not_isMark hmark depth
      | quoted quote =>
        have hne : c ≠ quote := by
          rintro rfl
          simp [isMark, hregion c rfl] at hmark
        rw [nestStep_quoted, if_neg hne]
      | bracketed =>
        have hne : c ≠ ']' := by
          rintro rfl
          exact absurd hc (by decide)
        rw [nestStep_bracketed, if_neg hne]
    rw [nest_cons, hstep, Option.bind_some]
    exact ih htext

/-- A closed text stays closed without the white space around it. -/
theorem Padded.closed_arg {arg piece : List Char} (h : Padded arg piece) (hpiece : Closed piece) :
    Closed arg := by
  obtain ⟨left, right, hl, hr, rfl⟩ := h
  rw [Closed, List.append_assoc, nest_append, closed_of_blank hl, Option.bind_some, nest_append,
    Option.bind_eq_some_iff] at hpiece
  obtain ⟨⟨region, depth⟩, harg, hright⟩ := hpiece
  rw [nest_blank (fun quote hquote => isQuote_of_nest (by simp) (hquote ▸ harg)) hr] at hright
  rw [Closed, harg, hright]

/-- If the parenthesis behind a text is the one that closes a call, then the commas outside of
parentheses part closed pieces.  `piece` is the piece that the scan for commas has begun. -/
theorem closed_of_splitArgsFrom {piece : List Char}
    (hclose : closeCallFrom region depth (text ++ [')']) = some (text, []))
    (hpiece : nest (.code, 0) piece.reverse = some (region, depth)) :
    ∀ arg ∈ splitArgsFrom region depth piece text, Closed arg := by
  induction text generalizing region depth piece with
  | nil =>
    have hstart : region = .code ∧ depth = 0 := by
      cases region <;> cases depth <;> simp_all [closeCallFrom]
    obtain ⟨rfl, rfl⟩ := hstart
    simpa [splitArgsFrom] using (padded_trim piece.reverse).closed_arg hpiece
  | cons c text ih =>
    by_cases hcomma : region = .code ∧ depth = 0 ∧ c = ','
    · obtain ⟨rfl, rfl, rfl⟩ := hcomma
      have hnext : closeCallFrom .code 0 (text ++ [')']) = some (text, []) := by
        simpa [closeCallFrom, Region.next, Region.isQuote] using hclose
      have hmore := @ih _ _ [] hnext rfl
      simpa [splitArgsFrom] using ⟨(padded_trim piece.reverse).closed_arg hpiece, hmore⟩
    · obtain ⟨⟨region', depth'⟩, hstep⟩ : ∃ next, nestStep (region, depth) c = some next := by
        cases region with
        | code =>
          cases depth with
          | zero =>
            have hc : c ≠ ')' := by
              rintro rfl
              simp [closeCallFrom] at hclose
            simp only [nestStep]
            grind
          | succ depth =>
            simp only [nestStep]
            grind
        | quoted quote => exact ⟨_, nestStep_quoted quote c depth⟩
        | bracketed => exact ⟨_, nestStep_bracketed c depth⟩
      have hnext : closeCallFrom region' depth' (text ++ [')']) = some (text, []) := by
        rw [List.cons_append, closeCallFrom_cons hstep, Option.map_eq_some_iff] at hclose
        obtain ⟨⟨inner, rest⟩, hread, heq⟩ := hclose
        simp_all
      have hgrown : nest (.code, 0) (c :: piece).reverse = some (region', depth') := by
        rw [List.reverse_cons, nest_append, hpiece, Option.bind_some, nest_cons, hstep]
        rfl
      rw [splitArgsFrom_cons hstep]
      exact ih hnext hgrown

/-- The arguments into which the text of a call splits are nested. -/
theorem nested_of_splitArgs {inner arg : List Char}
    (hclose : closeCall (inner ++ [')']) = some (inner, [])) (harg : arg ∈ splitArgs inner) :
    Nested false arg := by
  rw [splitArgs] at harg
  split at harg
  · simp at harg
  · exact closed_iff_nested.1 (@closed_of_splitArgsFrom _ _ _ [] hclose rfl arg harg)

/-- Nested arguments with a blank after each comma are closed by the parenthesis behind them and
split back into themselves. -/
theorem reads_of_nested {args : List (List Char)} (htrimmed : ∀ arg ∈ args, Trimmed arg)
    (hnested : ∀ arg ∈ args, Nested false arg) :
    (∀ rest, closeCall (", ".toList.intercalate args ++ ')' :: rest) =
        some (", ".toList.intercalate args, rest)) ∧
      splitArgs (", ".toList.intercalate args) = args := by
  cases args with
  | nil => exact ⟨fun rest => by simp [closeCall, closeCallFrom], rfl⟩
  | cons arg args =>
    have hargs : ∀ a ∈ arg :: args, IsArg a := fun a ha =>
      ⟨closed_iff_nested.2 (hnested a ha), htrimmed a ha⟩
    have hpadded := padded_comma_blank arg args
    rw [intercalate_comma_blank]
    exact ⟨closeCall_intercalate (closed_of_padded hpadded hargs),
      splitArgs_of_padded hpadded hargs (by simp)⟩

/-- A call of trimmed arguments is a call as a whole, ends at the parenthesis behind its last
argument and splits back into its arguments, exactly if each argument is nested: its quotes,
brackets and parentheses are closed, and no comma stands outside of them. -/
theorem reads_call_iff {name : String} {args : List (List Char)} (hname : IsName name.toList)
    (htrimmed : ∀ arg ∈ args, Trimmed arg) :
    (callParts (call name args) = some (name.toList, ", ".toList.intercalate args) ∧
        closeCall (", ".toList.intercalate args ++ [')']) =
          some (", ".toList.intercalate args, []) ∧
        splitArgs (", ".toList.intercalate args) = args) ↔
      ∀ arg ∈ args, Nested false arg := by
  constructor
  · rintro ⟨-, hclose, hsplit⟩ arg harg
    exact nested_of_splitArgs hclose (by rwa [hsplit])
  · intro hnested
    obtain ⟨hcloses, hsplit⟩ := reads_of_nested htrimmed hnested
    have hcall : IsCall name.toList (", ".toList.intercalate args) (call name args) :=
      ⟨hname, ⟨[], rfl, by simp [call]⟩, hcloses⟩
    exact ⟨hcall.callParts_eq, hcloses [], hsplit⟩

/-- Commas and parentheses that stand in a literal with a quote written twice, in brackets, in
backquotes and below a parenthesis, and a quote at either end of an argument. -/
theorem reads_call_date_add :
    let args := ["IIF([x, )], ')''(,', y)".toList, "'INTERVAL '''".toList, "`a``(`".toList]
    let inner := "IIF([x, )], ')''(,', y), 'INTERVAL ''', `a``(`".toList
    (IsName "DATE_ADD".toList ∧ (∀ arg ∈ args, Trimmed arg) ∧ ∀ arg ∈ args, Nested false arg) ∧
      callParts "DATE_ADD(IIF([x, )], ')''(,', y), 'INTERVAL ''', `a``(`)".toList =
        some ("DATE_ADD".toList, inner) ∧
      closeCall (inner ++ [')']) = some (inner, []) ∧ splitArgs inner = args := by
  have hname : IsName "DATE_ADD".toList := by decide
  have htrimmed : ∀ arg ∈ ["IIF([x, )], ')''(,', y)".toList, "'INTERVAL '''".toList,
      "`a``(`".toList], Trimmed arg := by decide
  have hnested : ∀ arg ∈ ["IIF([x, )], ')''(,', y)".toList, "'INTERVAL '''".toList,
      "`a``(`".toList], Nested false arg := fun arg harg => by
    have hclosed : ∀ arg ∈ ["IIF([x, )], ')''(,', y)".toList, "'INTERVAL '''".toList,
      "`a``(`".toList], Closed arg := by decide
    exact closed_iff_nested.1 (hclosed arg harg)
  exact ⟨⟨hname, htrimmed, hnested⟩, (reads_call_iff hname htrimmed).2 hnested⟩

end AskSql.Sql
