import AskSql.Idiom.Rewrite
import AskSql.Proofs.Text.Words
import AskSql.Sql.Literal

/-! How the words of a text are rewritten, piece by piece.  A piece may stand where its first word
is free to be rewritten and where its last word neither goes on nor is called; under these
conditions what becomes of it does not depend on what stands around it, so pieces can be joined. -/

namespace AskSql.Idiom

open Text Sql

variable {rewriteAt? : List Char → Option (List Char × Nat)} {before : Option Char}
  {text text' rest : List Char}

/-! ### One character -/

theorem rewriteWordsFrom_pass {c : Char} {cs : List Char}
    (h : beginsWord before c = false ∨ isAnchored before = false ∨ rewriteAt? (c :: cs) = none) :
    rewriteWordsFrom rewriteAt? before false 0 (c :: cs) =
      c :: rewriteWordsFrom rewriteAt? (some c) (c == '\'') 0 cs := by
  simp only [rewriteWordsFrom, Bool.false_or, Bool.false_bne]
  split
  · rfl
  · rename_i hfree
    have hnone : rewriteAt? (c :: cs) = none := by
      rcases h with h | h | h
      · simp [h] at hfree
      · simp [h] at hfree
      · exact h
    rw [hnone]

theorem rewriteWordsFrom_literal {c : Char} {cs : List Char} :
    rewriteWordsFrom rewriteAt? before true 0 (c :: cs) =
      c :: rewriteWordsFrom rewriteAt? (some c) (c != '\'') 0 cs := by
  simp [rewriteWordsFrom, bne]

theorem insideLiteral_cons (c : Char) (cs : List Char) :
    insideLiteral (c :: cs) = (insideLiteral cs != (c == '\'')) := by
  simp only [insideLiteral, List.count_cons]
  cases c == '\'' <;> grind

/-- The characters of a text that has new text already are passed over. -/
theorem rewriteWordsFrom_skip (front rest : List Char) (literal : Bool) :
    rewriteWordsFrom rewriteAt? before literal front.length (front ++ rest) =
      rewriteWordsFrom rewriteAt? (front.getLast?.or before)
        (literal != insideLiteral front) 0 rest := by
  induction front generalizing before literal with
  | nil => simp [insideLiteral]
  | cons c front ih =>
    have hquote : ((literal != (c == '\'')) != insideLiteral front) =
        (literal != insideLiteral (c :: front)) := by
      rw [insideLiteral_cons]
      cases literal <;> cases c == '\'' <;> cases insideLiteral front <;> rfl
    rw [List.length_cons, List.cons_append, rewriteWordsFrom, ih, hquote, List.getLast?_cons]
    cases front.getLast? <;> rfl

/-! ### Pieces -/

/-- Where `before` precedes `text`, a word that begins `text` may be rewritten. -/
def Free (before : Option Char) (text : List Char) : Prop :=
  ∀ b ∈ before, ∀ c ∈ text.head?, isWordChar c = true →
    isWordChar b = false ∧ isAnchored (some b) = true

/-- Where `rest` follows `text`, a word that ends `text` does not go on and is not called. -/
def Apart (text rest : List Char) : Prop :=
  ∀ c ∈ text.getLast?, isWordChar c = true →
    (∀ d ∈ rest.head?, isWordChar d = false) ∧ (trimStart rest).head? ≠ some '('

/-- `text` becomes `text'` wherever its words are free and end in it. -/
def Rewrites (rewriteAt? : List Char → Option (List Char × Nat)) (text text' : List Char) : Prop :=
  ∀ before rest, Free before text → Apart text rest →
    rewriteWordsFrom rewriteAt? before false 0 (text ++ rest) =
      text' ++ rewriteWordsFrom rewriteAt? (text.getLast?.or before) false 0 rest

/-- `back` may follow `front`, whatever follows `back`. -/
structure Joins (front back : List Char) : Prop where
  free : Free front.getLast? back
  apart : ∀ rest, Apart back rest → Apart front (back ++ rest)

theorem free_none : Free none text := by
  intro b hb
  simp at hb

theorem apart_nil : Apart text [] := by
  intro c _ _
  simp [trimStart]

theorem apart_of_last (h : ∀ c ∈ text.getLast?, isWordChar c = false) : Apart text rest :=
  fun c hc hword => absurd hword (by simp [h c hc])

theorem Rewrites.rewriteWords_eq (h : Rewrites rewriteAt? text text') :
    rewriteWords rewriteAt? text = text' := by
  have h := h none [] free_none apart_nil
  simpa [rewriteWords, rewriteWordsFrom] using h

theorem Rewrites.nil : Rewrites rewriteAt? [] [] := by
  intro before rest _ _
  simp

theorem Rewrites.append {front front' back back' : List Char}
    (hf : Rewrites rewriteAt? front front')
    (hb : Rewrites rewriteAt? back back') (hjoin : Joins front back) :
    Rewrites rewriteAt? (front ++ back) (front' ++ back') := by
  intro before rest hfree hapart
  cases hfront : front with
  | nil =>
    subst hfront
    have hnil : front' = [] := by
      simpa [rewriteWordsFrom] using (hf none [] free_none apart_nil).symm
    simpa [hnil] using hb before rest hfree hapart
  | cons c cs =>
    obtain ⟨d, hd⟩ : ∃ d, front.getLast? = some d := ⟨_, by rw [hfront, List.getLast?_cons]⟩
    have hapartBack : Apart back rest := by
      intro e he
      exact hapart e (by simp [List.getLast?_append, Option.mem_def.1 he])
    have hfreeFront : Free before front := by
      intro b hb c hc
      exact hfree b hb c (by simp [List.head?_append, Option.mem_def.1 hc])
    have hfreeBack : Free (front.getLast?.or before) back := by
      rw [hd, Option.some_or, ← hd]
      exact hjoin.free
    have hthen := hb _ rest hfreeBack hapartBack
    rw [← hfront, List.append_assoc, hf before (back ++ rest) hfreeFront
      (hjoin.apart rest hapartBack),
      hthen, List.append_assoc, List.getLast?_append, Option.or_assoc]

/-! ### Kinds of pieces -/

/-- A text stays if no word of it is rewritten that is free to be and stands outside its
literals. -/
theorem rewriteWordsFrom_self {literal : Bool}
    (h : ∀ front c back, text = front ++ c :: back → (literal != insideLiteral front) = false →
      beginsWord (front.getLast?.or before) c = true →
      isAnchored (front.getLast?.or before) = true → rewriteAt? (c :: back ++ rest) = none) :
    rewriteWordsFrom rewriteAt? before literal 0 (text ++ rest) =
      text ++ rewriteWordsFrom rewriteAt? (text.getLast?.or before)
        (literal != insideLiteral text) 0 rest := by
  induction text generalizing before literal with
  | nil => simp [insideLiteral]
  | cons c text ih =>
    have hquote : (literal != insideLiteral (c :: text)) =
        ((literal != (c == '\'')) != insideLiteral text) := by
      rw [insideLiteral_cons]
      cases literal <;> cases c == '\'' <;> cases insideLiteral text <;> rfl
    have hlast : ∀ cs : List Char, (c :: cs).getLast?.or before = cs.getLast?.or (some c) := by
      intro cs
      rw [List.getLast?_cons]
      cases cs.getLast? <;> rfl
    have hrest := @ih (some c) (literal != (c == '\''))
      fun front d back htext hcode hbegins hanchored => by
        refine h (c :: front) d back (by rw [htext]; rfl) ?_ (by rwa [hlast]) (by rwa [hlast])
        rw [insideLiteral_cons]
        revert hcode
        cases literal <;> cases c == '\'' <;> cases insideLiteral front <;> simp
    rw [hquote, hlast, List.cons_append, List.cons_append]
    cases literal with
    | true => rw [rewriteWordsFrom_literal, bne, ← Bool.true_bne, hrest]
    | false =>
      rw [Bool.false_bne] at hrest ⊢
      rw [rewriteWordsFrom_pass ?_, hrest]
      have hnone := h [] c text rfl (by simp [insideLiteral])
      simp only [List.getLast?_nil, Option.none_or] at hnone
      cases hb : beginsWord before c with
      | false => exact Or.inl rfl
      | true =>
        cases ha : isAnchored before with
        | false => exact Or.inr (Or.inl rfl)
        | true => exact Or.inr (Or.inr (hnone hb ha))

theorem beq_quote_of_isWordChar {c : Char} (h : isWordChar c = true) : (c == '\'') = false := by
  cases hq : c == '\'' with
  | false => rfl
  | true =>
    obtain rfl : c = '\'' := by simpa using hq
    exact absurd h (by decide)

theorem insideLiteral_of_not_mem (h : ∀ c ∈ text, (c == '\'') = false) :
    insideLiteral text = false := by
  have hcount : text.count '\'' = 0 := by
    rw [List.count_eq_zero]
    intro hmem
    simpa using h '\'' hmem
  simp [insideLiteral, hcount]

theorem rewriteWordsFrom_of_forall {p : Char → Prop} (hp : ∀ c, p c → (c == '\'') = false)
    (hnext : ∀ b c, p b → p c → beginsWord (some b) c = false ∨ isAnchored (some b) = false)
    (hbefore : ∀ c ∈ text.head?, beginsWord before c = false ∨ isAnchored before = false)
    (h : ∀ c ∈ text, p c) (rest : List Char) :
    rewriteWordsFrom rewriteAt? before false 0 (text ++ rest) =
      text ++ rewriteWordsFrom rewriteAt? (text.getLast?.or before) false 0 rest := by
  have hself := @rewriteWordsFrom_self rewriteAt? before text rest false
    fun front c back htext _ hbegins hanchored => by
      have hpass : beginsWord (front.getLast?.or before) c = false ∨
          isAnchored (front.getLast?.or before) = false := by
        subst htext
        cases hf : front.getLast? with
        | none =>
          rw [List.getLast?_eq_none_iff] at hf
          exact hbefore c (by simp [hf])
        | some b =>
          exact hnext b c (h b (by simp [List.mem_of_getLast? hf])) (h c (by simp))
      rcases hpass with hno | hno
      · simp [hno] at hbegins
      · simp [hno] at hanchored
  rw [hself, insideLiteral_of_not_mem fun c hc => hp c (h c hc)]
  rfl

/-- Inside a word, and inside the names behind a dot, nothing is rewritten. -/
theorem rewriteWordsFrom_dotted (hb : ∃ b ∈ before, isWordChar b = true ∨ b = '.')
    (h : ∀ c ∈ text, isWordChar c = true ∨ c = '.') (rest : List Char) :
    rewriteWordsFrom rewriteAt? before false 0 (text ++ rest) =
      text ++ rewriteWordsFrom rewriteAt? (text.getLast?.or before) false 0 rest := by
  have hnext : ∀ b c : Char, isWordChar b = true ∨ b = '.' →
      beginsWord (some b) c = false ∨ isAnchored (some b) = false := by
    rintro b c (hb | rfl)
    · exact Or.inl (by simp [beginsWord, hb])
    · exact Or.inr rfl
  refine rewriteWordsFrom_of_forall (p := fun c => isWordChar c = true ∨ c = '.') ?_
    (fun b c hb _ => hnext b c hb) (fun c _ => ?_) h rest
  · rintro c (hc | rfl)
    · exact beq_quote_of_isWordChar hc
    · rfl
  · obtain ⟨b, hmem, hb⟩ := hb
    obtain rfl : before = some b := hmem
    exact hnext b c hb

/-- Between words nothing is rewritten. -/
theorem rewriteWordsFrom_between (h : ∀ c ∈ text, isWordChar c = false ∧ c ≠ '\'')
    (rest : List Char) :
    rewriteWordsFrom rewriteAt? before false 0 (text ++ rest) =
      text ++ rewriteWordsFrom rewriteAt? (text.getLast?.or before) false 0 rest :=
  rewriteWordsFrom_of_forall (p := fun c => isWordChar c = false ∧ c ≠ '\'')
    (fun c hc => by simpa using hc.2) (fun b c _ hc => Or.inl (by simp [beginsWord, hc.1]))
    (fun c hc => Or.inl (by simp [beginsWord, (h c (List.mem_of_head? hc)).1])) h rest

/-- A name, possibly dotted, stays if its first word is not rewritten. -/
theorem rewrites_dotted (hword : ∃ c ∈ text.head?, isWordChar c = true)
    (h : ∀ c ∈ text, isWordChar c = true ∨ c = '.')
    (hnone : ∀ rest, Apart text rest → rewriteAt? (text ++ rest) = none) :
    Rewrites rewriteAt? text text := by
  intro before rest _ hapart
  cases text with
  | nil => simp at hword
  | cons c text =>
    obtain ⟨d, hd, hc⟩ := hword
    obtain rfl : c = d := by simpa using hd
    have hquote := beq_quote_of_isWordChar hc
    have hrest := @rewriteWordsFrom_dotted rewriteAt? _ _
      ⟨c, rfl, Or.inl hc⟩ (fun d hd => h d (List.mem_cons_of_mem _ hd)) rest
    rw [List.cons_append,
      rewriteWordsFrom_pass (Or.inr (Or.inr (by simpa using hnone rest hapart))), hquote, hrest,
      List.getLast?_cons]
    cases text.getLast? <;> rfl

/-- A text that is rewritten as a whole wherever it stands. -/
theorem rewrites_whole (hstart : ∃ c ∈ text.head?, isWordChar c = true)
    (hquotes : insideLiteral text = false)
    (h : ∀ rest, Apart text rest → rewriteAt? (text ++ rest) = some (text', text.length)) :
    Rewrites rewriteAt? text text' := by
  intro before rest hfree hapart
  obtain ⟨c, hc, hword⟩ := hstart
  obtain ⟨cs, rfl⟩ := List.head?_eq_some_iff.1 hc
  have hquote := beq_quote_of_isWordChar hword
  have hat := h rest hapart
  have hpass : (false || !beginsWord before c || !isAnchored before) = false := by
    cases before with
    | none => simp [beginsWord, hword, isAnchored]
    | some b =>
      obtain ⟨hb, hanchored⟩ := hfree b rfl c (by simp) hword
      simp [beginsWord, hword, hb, hanchored]
  have hinside : insideLiteral cs = false := by
    rw [insideLiteral_cons, hquote] at hquotes
    simpa using hquotes
  rw [List.cons_append] at hat
  rw [List.cons_append, rewriteWordsFrom]
  simp only [hpass, Bool.false_eq_true, if_false, hat, hquote, bne_self_eq_false, List.length_cons,
    Nat.add_sub_cancel]
  rw [rewriteWordsFrom_skip, hinside, bne_self_eq_false, List.getLast?_cons]
  cases cs.getLast? <;> rfl

/-- A word that is not rewritten stays, whatever becomes of the piece behind it. -/
theorem rewrites_word_append {word : List Char} (hne : word ≠ [])
    (hword : ∀ c ∈ word, isWordChar c = true) (h : Rewrites rewriteAt? text text')
    (htext : ∃ c ∈ text.head?, isWordChar c = false)
    (hnone : ∀ rest, rewriteAt? (word ++ text ++ rest) = none) :
    Rewrites rewriteAt? (word ++ text) (word ++ text') := by
  intro before rest _ hapart
  obtain ⟨c, word, rfl⟩ := List.exists_cons_of_ne_nil hne
  obtain ⟨e, he, hstop⟩ := htext
  have hquote := beq_quote_of_isWordChar (hword c (by simp))
  have htail := @rewriteWordsFrom_dotted rewriteAt? _ _
    ⟨c, rfl, Or.inl (hword c (by simp))⟩ (fun d hd => Or.inl (hword d (List.mem_cons_of_mem _ hd)))
    (text ++ rest)
  have hfree : Free (word.getLast?.or (some c)) text := by
    intro b _ d hd hdw
    obtain rfl : e = d := Option.mem_unique he hd
    simp [hstop] at hdw
  have hapartText : Apart text rest := by
    intro d hd
    exact hapart d (by rw [List.getLast?_append, Option.mem_def.1 hd]; rfl)
  have hlast : ((c :: word ++ text).getLast?.or before) =
      text.getLast?.or (word.getLast?.or (some c)) := by
    rw [List.getLast?_append, List.getLast?_cons]
    cases text.getLast? <;> cases word.getLast? <;> rfl
  have hcons : c :: word ++ text ++ rest = c :: (word ++ (text ++ rest)) := by simp
  rw [hlast, hcons, rewriteWordsFrom_pass (Or.inr (Or.inr (hcons ▸ hnone rest))), hquote, htail,
    h _ rest hfree hapartText]
  simp

/-- A string literal stays as it is. -/
theorem rewrites_literal (content : List Char) :
    Rewrites rewriteAt? ('\'' :: doubled '\'' content ++ ['\''])
      ('\'' :: doubled '\'' content ++ ['\'']) := by
  have hinside : ∀ before rest, rewriteWordsFrom rewriteAt? before true 0
      (doubled '\'' content ++ '\'' :: rest) =
      doubled '\'' content ++ '\'' :: rewriteWordsFrom rewriteAt? (some '\'') false 0 rest := by
    induction content with
    | nil =>
      intro before rest
      simp [doubled, rewriteWordsFrom_literal]
    | cons c content ih =>
      intro before rest
      by_cases hc : c = '\''
      · subst hc
        have hquote : beginsWord (some '\'') '\'' = false := by decide
        have hrest := ih (some '\'') rest
        simp only [doubled] at hrest
        simp [doubled, rewriteWordsFrom_literal, rewriteWordsFrom_pass (Or.inl hquote), hrest]
      · have hrest := ih (some c) rest
        simp only [doubled] at hrest
        have hne : (c != '\'') = true := by simpa using hc
        simp [doubled, hc, rewriteWordsFrom_literal, hne, hrest]
  intro before rest _ _
  have hquote : beginsWord before '\'' = false := by
    have : isWordChar '\'' = false := by decide
    simp [beginsWord, this]
  have hrest := hinside (some '\'') rest
  have hcons : '\'' :: doubled '\'' content ++ ['\''] ++ rest =
      '\'' :: (doubled '\'' content ++ '\'' :: rest) := by simp
  rw [hcons, rewriteWordsFrom_pass (Or.inl hquote), beq_self_eq_true, hrest, List.getLast?_concat]
  simp

end AskSql.Idiom
