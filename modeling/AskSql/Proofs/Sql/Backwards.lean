import AskSql.Proofs.Idiom.Operands
import AskSql.Proofs.Idiom.Recognition
import AskSql.Proofs.Sql.Arguments
import AskSql.Proofs.Sql.OpeningQuote
import AskSql.Proofs.Sql.QuotedName

/-! Calls, read from both ends.  Forwards a call ends at the first parenthesis behind a nested text.
Backwards the scan knows no quotes but those of string literals, so it comes back to the parenthesis
that opens the call exactly if the arguments are closed for a reader who sees only these.  They are
where no other quotes and no brackets stand outside of literals. -/

namespace AskSql.Sql

open Text Idiom

variable {literal literal' : Bool} {depth depth' : Nat} {cs text inner rest : List Char}

/-! ### Forwards -/

/-- The search for the end of a call passes over a nested text, commas and all. -/
theorem Nested.closeCallFrom_eq {commas : Bool} (h : Nested commas text) (depth : Nat)
    (rest : List Char) :
    closeCallFrom .code depth (text ++ rest) =
      (closeCallFrom .code depth rest).map fun (inner, rest) => (text ++ inner, rest) := by
  induction h generalizing depth rest with
  | nil => simp
  | plain hc _ ih =>
    rw [List.cons_append, closeCallFrom_cons (nestStep_of_not_isMark hc depth), ih, Option.map_map]
    rfl
  | comma _ ih =>
    have hstep : ∀ cs, closeCallFrom .code depth (',' :: cs) =
        (closeCallFrom .code depth cs).map fun (inner, rest) => (',' :: inner, rest) := by
      simp [closeCallFrom, Region.next, Region.isQuote]
    rw [List.cons_append, hstep, ih, Option.map_map]
    rfl
  | @quoted _ quote more hquote content _ ih =>
    have hfront : nest (.code, depth) (quote :: doubled quote content ++ [quote]) =
        some (.code, depth) := (Nested.quoted hquote content (.nil false)).nest_eq (by simp)
    have hsplit : quote :: doubled quote content ++ quote :: more ++ rest =
        (quote :: doubled quote content ++ [quote]) ++ (more ++ rest) := by simp
    rw [hsplit, closeCallFrom_append hfront, ih, Option.map_map]
    simp [Function.comp_def]
  | @bracketed _ content more hcontent _ ih =>
    have hfront : nest (.code, depth) ('[' :: content ++ [']']) = some (.code, depth) :=
      (Nested.bracketed hcontent (.nil false)).nest_eq (by simp)
    have hsplit : '[' :: content ++ ']' :: more ++ rest =
        ('[' :: content ++ [']']) ++ (more ++ rest) := by simp
    rw [hsplit, closeCallFrom_append hfront, ih, Option.map_map]
    simp [Function.comp_def]
  | @parenthesised _ inner more _ _ ihinner ihmore =>
    have hopen : nestStep (.code, depth) '(' = some (.code, depth + 1) := by simp [nestStep]
    have hclose : nestStep (.code, depth + 1) ')' = some (.code, depth) := by simp [nestStep]
    have hsplit : '(' :: inner ++ ')' :: more ++ rest =
        '(' :: (inner ++ ')' :: (more ++ rest)) := by simp
    rw [hsplit, closeCallFrom_cons hopen, ihinner, closeCallFrom_cons hclose, ihmore]
    simp [Function.comp_def, Option.map_map]

/-- What the search for the end of a call has passed, seen from one parenthesis further out. -/
theorem nest_of_closeCallFrom {region : Region}
    (h : closeCallFrom region depth text = some (inner, rest)) :
    nest (region, depth + 1) inner = some (.code, 1) := by
  induction text generalizing region depth inner with
  | nil => simp [closeCallFrom] at h
  | cons c text ih =>
    have hmore : ∀ {region' depth'}, nestStep (region, depth + 1) c = some (region', depth' + 1) →
        (closeCallFrom region' depth' text).map (fun read => (c :: read.1, read.2)) =
          some (inner, rest) → nest (region, depth + 1) inner = some (.code, 1) := by
      intro region' depth' hstep h
      obtain ⟨⟨taken, left⟩, htaken, heq⟩ := Option.map_eq_some_iff.1 h
      obtain ⟨rfl, rfl⟩ : c :: taken = inner ∧ left = rest := by simpa using heq
      rw [nest_cons, hstep]
      exact ih htaken
    unfold closeCallFrom at h
    split at h
    · rename_i hc
      obtain ⟨rfl, rfl⟩ := hc
      cases depth with
      | zero =>
        obtain ⟨rfl, rfl⟩ : [] = inner ∧ text = rest := by simpa using h
        rfl
      | succ depth => exact hmore (by simp [nestStep]) h
    · rename_i hclose
      refine hmore ?_ h
      cases region with
      | code =>
        have hc : c ≠ ')' := by simpa using hclose
        by_cases hopen : c = '('
        · simp [nestStep, hopen, Region.next, Region.isQuote]
        · simp [nestStep, hc, hopen]
      | quoted quote | bracketed => simp [nestStep]

/-- A call is closed by the first parenthesis behind a nested text. -/
theorem closeCall_eq_some_iff :
    closeCall text = some (inner, rest) ↔ text = inner ++ ')' :: rest ∧ Nested true inner := by
  constructor
  · intro h
    have hsplit := closeCallFrom_split h
    refine ⟨hsplit, ?_⟩
    have hclosed : Closed ('(' :: inner ++ [')']) := by
      have hopen : nestStep (.code, 0) '(' = some (.code, 1) := rfl
      rw [Closed, List.cons_append, nest_cons, hopen, Option.bind_some, nest_append,
        nest_of_closeCallFrom h]
      rfl
    generalize htext : '(' :: inner ++ [')'] = whole at hclosed
    have hnested := closed_iff_nested.1 hclosed
    cases hnested with
    | nil => simp at htext
    | plain hc =>
      obtain ⟨rfl, -⟩ := List.cons_eq_cons.1 htext
      simp [isMark] at hc
    | quoted hquote =>
      obtain ⟨rfl, -⟩ := List.cons_eq_cons.1 htext
      simp [Region.isQuote] at hquote
    | bracketed => simp at htext
    | @parenthesised _ first more hfirst =>
      -- The first parenthesis behind a nested text is where the search ends.
      have hends : inner ++ [')'] = first ++ ')' :: more := (List.cons_eq_cons.1 htext).2
      have hread : text = first ++ ')' :: (more ++ rest) := by
        rw [hsplit, ← List.singleton_append, ← List.append_assoc, hends]
        simp
      rw [closeCall, hread, hfirst.closeCallFrom_eq] at h
      obtain ⟨rfl, -⟩ : first = inner ∧ more ++ rest = rest := by
        simpa [closeCallFrom] using h
      exact hfirst
  · rintro ⟨rfl, hnested⟩
    rw [closeCall, hnested.closeCallFrom_eq]
    simp [closeCallFrom]

/-! ### Nested texts, at their ends -/

theorem Nested.mono {commas : Bool} (h : Nested commas text) : Nested true text := by
  induction h with
  | nil => exact .nil true
  | plain hc _ ih => exact .plain hc ih
  | comma _ ih => exact .comma ih
  | quoted hquote content _ ih => exact .quoted hquote content ih
  | bracketed hcontent _ ih => exact .bracketed hcontent ih
  | parenthesised hinner _ _ ih => exact .parenthesised hinner ih

theorem Nested.tail {commas : Bool} {c : Char} (h : Nested commas (c :: text))
    (hc : isMark c = false) : Nested commas text := by
  generalize hwhole : c :: text = whole at h
  have hmark : ∀ {x : Char} {more : List Char}, c :: text = x :: more → isMark x = true →
      Nested commas text := fun heq hx => by
    rw [← (List.cons.inj heq).1, hc] at hx
    contradiction
  cases h with
  | nil => contradiction
  | plain _ hrest =>
    obtain ⟨-, rfl⟩ := List.cons.inj hwhole
    exact hrest
  | comma => exact hmark hwhole (by decide)
  | quoted hquote => exact hmark hwhole (by simp [isMark, hquote])
  | bracketed => exact hmark hwhole (by decide)
  | parenthesised => exact hmark hwhole (by decide)

/-- A text that ends with another character goes on behind each `x` in it. -/
theorem exists_concat_of_ne {c x : Char} {front more : List Char} (hne : c ≠ x)
    (h : text ++ [c] = front ++ x :: more) :
    ∃ rest, more = rest ++ [c] ∧ text = front ++ x :: rest := by
  rcases List.eq_nil_or_concat more with rfl | ⟨rest, d, rfl⟩
  · obtain ⟨-, heq⟩ := List.append_inj' h rfl
    exact absurd (List.cons.inj heq).1 hne
  · have hsplit : text ++ [c] = (front ++ x :: rest) ++ [d] := by simpa using h
    obtain ⟨htext, heq⟩ := List.append_inj' hsplit rfl
    obtain rfl : c = d := (List.cons.inj heq).1
    exact ⟨rest, by simp, htext⟩

theorem Nested.init {commas : Bool} {c : Char} (h : Nested commas (text ++ [c]))
    (hc : isMark c = false) (hbracket : c ≠ ']') : Nested commas text := by
  have hne : ∀ {x}, isMark x = true → c ≠ x := fun hx => (ne_of_class hx hc).symm
  generalize hwhole : text ++ [c] = whole at h
  induction h generalizing text with
  | nil => simp at hwhole
  | plain hd hrest ih =>
    cases text with
    | nil => exact .nil _
    | cons e text =>
      obtain ⟨rfl, hmore⟩ := List.cons.inj hwhole
      exact .plain hd (ih hmore)
  | comma _ ih =>
    obtain ⟨rest, rfl, rfl⟩ := @exists_concat_of_ne text c ',' [] _ (hne (by decide)) hwhole
    exact .comma (ih rfl)
  | quoted hquote content _ ih =>
    obtain ⟨rest, rfl, rfl⟩ := exists_concat_of_ne (hne (by simp [isMark, hquote])) hwhole
    exact .quoted hquote content (ih rfl)
  | bracketed hcontent _ ih =>
    obtain ⟨rest, rfl, rfl⟩ := exists_concat_of_ne hbracket hwhole
    exact .bracketed hcontent (ih rfl)
  | parenthesised hinner _ _ ih =>
    obtain ⟨rest, rfl, rfl⟩ := exists_concat_of_ne (hne (by decide)) hwhole
    exact .parenthesised hinner (ih rfl)

/-- A nested text stays so without characters at its ends that are no marks. -/
theorem Nested.middle {commas : Bool} {front back : List Char}
    (h : Nested commas (front ++ (text ++ back))) (hfront : ∀ c ∈ front, isMark c = false)
    (hback : ∀ c ∈ back, isMark c = false ∧ c ≠ ']') : Nested commas text := by
  have hmore : Nested commas (text ++ back) := by
    induction front with
    | nil => exact h
    | cons c front ih =>
      rw [List.forall_mem_cons] at hfront
      exact ih (Nested.tail h hfront.1) hfront.2
  clear h hfront
  induction back using List.reverseRecOn with
  | nil => simpa using hmore
  | append_singleton back c ih =>
    rw [List.forall_mem_append] at hback
    obtain ⟨hmark, hbracket⟩ := hback.2 c (by simp)
    rw [← List.append_assoc] at hmore
    exact ih hback.1 (hmore.init hmark hbracket)

/-- A nested text is made of pieces that are nested without commas, with commas between them. -/
theorem Nested.exists_pieces (h : Nested true text) :
    ∃ piece pieces, text = [','].intercalate (piece :: pieces) ∧
      ∀ p ∈ piece :: pieces, Nested false p := by
  have hfront : ∀ {front text : List Char}, (∀ {back}, Nested false back →
      Nested false (front ++ back)) →
      (∃ piece pieces, text = [','].intercalate (piece :: pieces) ∧
        ∀ p ∈ piece :: pieces, Nested false p) →
      ∃ piece pieces, front ++ text = [','].intercalate (piece :: pieces) ∧
        ∀ p ∈ piece :: pieces, Nested false p := by
    rintro front text hnested ⟨piece, pieces, rfl, hpieces⟩
    obtain ⟨hpiece, hrest⟩ := List.forall_mem_cons.1 hpieces
    refine ⟨front ++ piece, pieces, ?_, List.forall_mem_cons.2 ⟨hnested hpiece, hrest⟩⟩
    cases pieces with
    | nil => simp
    | cons next pieces => simp
  generalize hcommas : true = commas at h
  induction h with
  | nil => exact ⟨[], [], rfl, by simpa using Nested.nil false⟩
  | @plain _ c more hc _ ih => exact @hfront [c] _ (Nested.plain hc) (ih hcommas)
  | comma _ ih =>
    obtain ⟨piece, pieces, rfl, hpieces⟩ := ih rfl
    exact ⟨[], piece :: pieces, by simp,
      List.forall_mem_cons.2 ⟨.nil false, hpieces⟩⟩
  | @quoted _ quote more hquote content _ ih =>
    have hwhole := @hfront (quote :: doubled quote content ++ [quote]) more
      (fun hback => by simpa using Nested.quoted hquote content hback) (ih hcommas)
    simpa using hwhole
  | @bracketed _ content more hcontent _ ih =>
    have hwhole := @hfront ('[' :: content ++ [']']) more
      (fun hback => by simpa using Nested.bracketed hcontent hback) (ih hcommas)
    simpa using hwhole
  | @parenthesised _ inner more hinner _ _ ih =>
    have hwhole := @hfront ('(' :: inner ++ [')']) more
      (fun hback => by simpa using Nested.parenthesised hinner hback) (ih hcommas)
    simpa using hwhole

/-! ### Backwards -/

/-- One step of the search for the beginning of a call, which keeps whether it stands in a string
literal and how many parentheses it has passed that it has still to open.  It fails on a parenthesis
that opens none of these. -/
def backStep (state : Bool × Nat) (c : Char) : Option (Bool × Nat) :=
  match state with
  | (literal, depth) =>
    if c = '\'' then some (!literal, depth)
    else if literal then some (true, depth)
    else if c = ')' then some (false, depth + 1)
    else if c = '(' then (if depth = 0 then none else some (false, depth - 1))
    else some (false, depth)

/-- The search for the beginning of a call, over a text read backwards. -/
def back (state : Bool × Nat) (cs : List Char) : Option (Bool × Nat) :=
  cs.foldlM backStep state

/-- Read backwards, and with string literals for its only quotes, `text` opens the parentheses that
it closes and no others. -/
def ClosedBackwards (text : List Char) : Prop :=
  back (false, 0) text.reverse = some (false, 0)

instance (text : List Char) : Decidable (ClosedBackwards text) :=
  inferInstanceAs (Decidable (_ = _))

@[simp] theorem back_nil (state : Bool × Nat) : back state [] = some state := rfl

@[simp] theorem back_cons (state : Bool × Nat) (c : Char) (cs : List Char) :
    back state (c :: cs) = (backStep state c).bind (back · cs) := rfl

theorem back_append (state : Bool × Nat) (front rear : List Char) :
    back state (front ++ rear) = (back state front).bind (back · rear) :=
  List.foldlM_append

theorem back_of_blank {gap : List Char} (h : blank gap = true) (state : Bool × Nat) :
    back state gap = some state := by
  obtain ⟨literal, depth⟩ := state
  induction gap with
  | nil => rfl
  | cons c gap ih =>
    obtain ⟨hc, hrest⟩ := Bool.and_eq_true_iff.1 h
    have hne : ∀ x, isBlank x = false → c ≠ x := fun x hx => ne_of_class hc hx
    have hstep : backStep (literal, depth) c = some (literal, depth) := by
      cases literal <;>
        simp [backStep, hne '\'' (by decide), hne '(' (by decide), hne ')' (by decide)]
    rw [back_cons, hstep]
    exact ih hrest

theorem backStep_deeper {c : Char} (k : Nat)
    (h : backStep (literal, depth) c = some (literal', depth')) :
    backStep (literal, depth + k) c = some (literal', depth' + k) := by
  simp only [backStep] at h ⊢
  grind

/-- Parentheses passed before a scan do not change it. -/
theorem back_deeper (k : Nat) (h : back (literal, depth) cs = some (literal', depth')) :
    back (literal, depth + k) cs = some (literal', depth' + k) := by
  induction cs generalizing literal depth with
  | nil => simp_all
  | cons c cs ih =>
    rw [back_cons, Option.bind_eq_some_iff] at h ⊢
    obtain ⟨⟨middle, between⟩, hstep, hrest⟩ := h
    exact ⟨(middle, between + k), backStep_deeper k hstep, ih hrest⟩

theorem backStep_literal {c : Char} (h : backStep (literal, depth) c = some (literal', depth')) :
    literal' = (literal != (c == '\'')) := by
  by_cases hc : c = '\''
  · cases literal <;> simp_all [backStep]
  · rw [beq_eq_false_iff_ne.2 hc, Bool.bne_false]
    simp only [backStep] at h
    grind

/-- The search changes between code and literals at every single quote. -/
theorem literal_of_back (h : back (literal, depth) cs = some (literal', depth')) :
    literal' = (literal != insideLiteral cs) := by
  induction cs generalizing literal depth with
  | nil =>
    obtain ⟨rfl, -⟩ : literal = literal' ∧ depth = depth' := by simpa using h
    simp [insideLiteral]
  | cons c cs ih =>
    rw [back_cons, Option.bind_eq_some_iff] at h
    obtain ⟨⟨middle, between⟩, hstep, hrest⟩ := h
    rw [ih hrest, backStep_literal hstep, insideLiteral_cons]
    cases literal <;> cases c == '\'' <;> cases insideLiteral cs <;> rfl

theorem ClosedBackwards.quotes (h : ClosedBackwards text) : insideLiteral text = false := by
  simpa [insideLiteral_reverse] using (literal_of_back h).symm

theorem openCallBefore_cons {c : Char}
    (h : backStep (literal, depth) c = some (literal', depth')) (rest : List Char) :
    openCallBefore literal depth (c :: rest) =
      (openCallBefore literal' depth' rest).map fun (taken, rest) => (c :: taken, rest) := by
  simp only [backStep] at h
  split at h
  · rename_i hc
    simp_all [openCallBefore]
  · rename_i hquote
    cases literal with
    | true => simp_all [openCallBefore]
    | false =>
      simp only [Bool.false_eq_true, if_false] at h
      split at h
      · rename_i hc
        simp_all [openCallBefore]
      · rename_i hclose
        split at h
        · rename_i hopen
          cases depth with
          | zero => simp at h
          | succ depth => simp_all [openCallBefore]
        · rename_i hopen
          simp_all [openCallBefore]

/-- The search for the beginning of a call passes over what opens the parentheses that it closes. -/
theorem openCallBefore_append (h : back (literal, depth) cs = some (literal', depth'))
    (rest : List Char) :
    openCallBefore literal depth (cs ++ rest) =
      (openCallBefore literal' depth' rest).map fun (taken, rest) => (cs ++ taken, rest) := by
  induction cs generalizing literal depth with
  | nil =>
    obtain ⟨rfl, rfl⟩ : literal = literal' ∧ depth = depth' := by simpa using h
    simp
  | cons c cs ih =>
    rw [back_cons, Option.bind_eq_some_iff] at h
    obtain ⟨⟨middle, between⟩, hstep, hrest⟩ := h
    rw [List.cons_append, openCallBefore_cons hstep, ih hrest, Option.map_map]
    rfl

theorem eq_of_backStep {c : Char} (h : backStep (literal, depth) c = none) :
    c = '(' ∧ literal = false ∧ depth = 0 := by
  simp only [backStep] at h
  grind

/-- Where its step fails the search ends. -/
theorem openCallBefore_of_backStep {c : Char} (h : backStep (literal, depth) c = none)
    (rest : List Char) : openCallBefore literal depth (c :: rest) = some ([c], rest) := by
  obtain ⟨rfl, rfl, rfl⟩ := eq_of_backStep h
  simp [openCallBefore]

/-- What the search takes ends with the parenthesis that opens the call. -/
theorem exists_concat_of_openCallBefore {taken : List Char}
    (h : openCallBefore literal depth cs = some (taken, rest)) :
    ∃ front, taken = front ++ ['('] := by
  induction cs generalizing literal depth taken with
  | nil => simp [openCallBefore] at h
  | cons c cs ih =>
    cases hstep : backStep (literal, depth) c with
    | none =>
      obtain ⟨rfl, -⟩ := eq_of_backStep hstep
      rw [openCallBefore_of_backStep hstep] at h
      obtain ⟨rfl, -⟩ := Prod.mk.inj (Option.some.inj h)
      exact ⟨[], rfl⟩
    | some state =>
      rw [openCallBefore_cons hstep, Option.map_eq_some_iff] at h
      obtain ⟨⟨read, left⟩, hread, heq⟩ := h
      obtain ⟨rfl, rfl⟩ : c :: read = taken ∧ left = rest := by simpa using heq
      obtain ⟨front, rfl⟩ := ih hread
      exact ⟨c :: front, rfl⟩

/-- The search ends at a given parenthesis exactly if it gets there outside of literals and with
every parenthesis opened. -/
theorem openCallBefore_eq_iff :
    openCallBefore literal depth (cs ++ '(' :: rest) = some (cs ++ ['('], rest) ↔
      back (literal, depth) cs = some (false, 0) := by
  constructor
  · intro h
    induction cs generalizing literal depth with
    | nil =>
      cases hstep : backStep (literal, depth) '(' with
      | none => cases literal <;> cases depth <;> simp_all [backStep]
      | some state =>
        rw [List.nil_append, openCallBefore_cons hstep, Option.map_eq_some_iff] at h
        obtain ⟨⟨taken, left⟩, hread, heq⟩ := h
        obtain ⟨front, rfl⟩ := exists_concat_of_openCallBefore hread
        simp at heq
    | cons c cs ih =>
      cases hstep : backStep (literal, depth) c with
      | none =>
        rw [List.cons_append, openCallBefore_of_backStep hstep] at h
        simp at h
      | some state =>
        rw [List.cons_append, openCallBefore_cons hstep, Option.map_eq_some_iff] at h
        obtain ⟨⟨taken, left⟩, hread, heq⟩ := h
        obtain ⟨rfl, rfl⟩ : taken = cs ++ ['('] ∧ left = rest := by simpa using heq
        rw [back_cons, hstep]
        exact ih hread
  · intro h
    rw [openCallBefore_append h]
    simp [openCallBefore]

theorem closedBackwards_iff_passedOver : ClosedBackwards text ↔ PassedOver text := by
  constructor
  · intro h depth rest
    exact openCallBefore_append (by simpa using back_deeper depth h) rest
  · intro h
    have hopen : openCallBefore false 0 ['('] = some (['('], []) := by simp [openCallBefore]
    have hread := h 0 ['(']
    rw [hopen] at hread
    exact openCallBefore_eq_iff.1 hread

/-! ### String literals alone -/

/-- The quotes of string literals are the only ones in `text`, and it has no brackets outside of
them. -/
def OnlyLiterals (text : List Char) : Prop :=
  ∀ front c back, text = front ++ c :: back → insideLiteral front = false →
    c ≠ '"' ∧ c ≠ '`' ∧ c ≠ '[' ∧ c ≠ ']'

theorem OnlyLiterals.of_append {front back : List Char} (h : OnlyLiterals (front ++ back))
    (hfront : insideLiteral front = false) : OnlyLiterals back := by
  rintro first c last rfl hfirst
  refine h (front ++ first) c last (by simp) ?_
  rw [insideLiteral_append, hfront, hfirst]
  rfl

theorem OnlyLiterals.of_front {front back : List Char} (h : OnlyLiterals (front ++ back)) :
    OnlyLiterals front := by
  rintro first c last rfl
  exact h first c (last ++ back) (by simp)

/-- A literal is read backwards like forwards: a quote written twice leaves it and enters it
again. -/
theorem passedOver_literal (content : List Char) :
    PassedOver ('\'' :: doubled '\'' content ++ ['\'']) := by
  have hinside : ∀ depth, back (true, depth) (doubled '\'' content).reverse =
      some (true, depth) := by
    intro depth
    induction content with
    | nil => rfl
    | cons c content ih =>
      rw [doubled, List.flatMap_cons, ← doubled, List.reverse_append, back_append, ih]
      by_cases hc : c = '\''
      · simp [hc, backStep]
      · simp [hc, backStep]
  rw [← closedBackwards_iff_passedOver, ClosedBackwards]
  simp only [List.cons_append, List.reverse_cons, List.reverse_append, List.reverse_nil,
    List.nil_append, back_cons, back_append]
  simp [backStep, hinside]

/-- Forwards a text may close its parentheses behind quotes of any kind; with string literals alone
it does so backwards too. -/
theorem passedOver_of_nested {commas : Bool} (h : Nested commas text) (honly : OnlyLiterals text) :
    PassedOver text := by
  induction h with
  | nil => exact passedOver_of_forall (by simp)
  | @plain _ c more hc _ ih =>
    have hne : c ≠ '\'' ∧ c ≠ '(' ∧ c ≠ ')' := by
      refine ⟨?_, ?_, ?_⟩ <;> rintro rfl <;> exact absurd hc (by decide)
    have hfirst : PassedOver [c] := passedOver_of_forall (by simpa using hne)
    have hmore : OnlyLiterals more := by
      refine @OnlyLiterals.of_append [c] more honly ?_
      rw [insideLiteral_cons, beq_eq_false_iff_ne.2 hne.1]
      rfl
    exact hfirst.append (ih hmore)
  | @comma more _ ih =>
    have hfirst : PassedOver [','] := passedOver_of_forall (by decide)
    exact hfirst.append (ih (@OnlyLiterals.of_append [','] more honly (by decide)))
  | @quoted _ quote more hquote content _ ih =>
    obtain rfl : quote = '\'' := by
      have hne := honly [] quote _ rfl rfl
      simpa [Region.isQuote, hne] using hquote
    have hsplit : '\'' :: doubled '\'' content ++ '\'' :: more =
        ('\'' :: doubled '\'' content ++ ['\'']) ++ more := by simp
    rw [hsplit] at honly ⊢
    exact (passedOver_literal content).append (ih (honly.of_append (calm_literal content).quotes))
  | bracketed => exact absurd rfl (honly [] '[' _ rfl rfl).2.2.1
  | @parenthesised _ inner more _ _ ihinner ihmore =>
    have hsplit : '(' :: inner ++ ')' :: more = ['('] ++ (inner ++ ([')'] ++ more)) := by simp
    have hbehind : OnlyLiterals (inner ++ ([')'] ++ more)) :=
      OnlyLiterals.of_append (hsplit ▸ honly) (by decide)
    have hinner : PassedOver inner := ihinner hbehind.of_front
    have hclosed : ClosedBackwards inner := closedBackwards_iff_passedOver.2 hinner
    have hmore : OnlyLiterals more := (hbehind.of_append hclosed.quotes).of_append (by decide)
    simpa using (passedOver_parens hinner).append (ihmore hmore)

theorem closedBackwards_of_nested {commas : Bool} (h : Nested commas text)
    (honly : OnlyLiterals text) :
    ClosedBackwards text :=
  closedBackwards_iff_passedOver.2 (passedOver_of_nested h honly)

/-! ### Whole calls -/

/-- The call of the arguments `inner` by the name that ends a text, which is read backwards. -/
def wholeCall (before inner : List Char) : List Char :=
  (before.takeWhile isOperandChar).reverse ++ '(' :: inner ++ [')']

/-- The operand behind which a sign stands is the whole call exactly if the search for its beginning
comes back to its parenthesis. -/
theorem operandBefore_call_iff {gap : List Char} (hgap : ∀ c ∈ gap, isAsciiBlank c = true)
    (before : List Char) :
    operandBefore (gap ++ ')' :: (inner.reverse ++ '(' :: before)) =
        some (wholeCall before inner, before.dropWhile isOperandChar) ↔
      ClosedBackwards inner := by
  have hstop : ∀ c ∈ (')' :: (inner.reverse ++ '(' :: before)).head?, isAsciiBlank c = false := by
    intro c hc
    obtain rfl : ')' = c := by simpa using hc
    decide
  rw [ClosedBackwards, ← @openCallBefore_eq_iff false 0 inner.reverse before, operandBefore,
    dropWhile_append hgap hstop, operandBackwards, if_pos rfl]
  constructor
  · intro h
    cases hopen : openCallBefore false 0 (inner.reverse ++ '(' :: before) with
    | none => simp [hopen] at h
    | some read =>
      obtain ⟨taken, left⟩ := read
      obtain ⟨front, rfl⟩ := exists_concat_of_openCallBefore hopen
      have hnot : ∀ cs : List Char, '(' ∉ (cs.takeWhile isOperandChar).reverse := by
        intro cs hmem
        have hchar := List.mem_takeWhile_imp (List.mem_reverse.1 hmem)
        exact absurd hchar (by decide)
      rw [hopen] at h
      simp only [Option.some.injEq, Prod.mk.injEq] at h
      obtain ⟨hwhole, hleft⟩ := h
      have hparts : (left.takeWhile isOperandChar).reverse ++ '(' :: (front.reverse ++ [')']) =
          (before.takeWhile isOperandChar).reverse ++ '(' :: (inner ++ [')']) := by
        simpa [wholeCall] using hwhole
      obtain ⟨hname, hinner⟩ := split_inj (hnot left) (hnot before) hparts
      obtain rfl : front.reverse = inner := by simpa using hinner
      rw [List.reverse_reverse, ← List.takeWhile_append_dropWhile (p := isOperandChar) (l := left),
        List.reverse_injective hname, hleft, List.takeWhile_append_dropWhile]
  · intro h
    rw [h]
    simp [wholeCall]

/-! ### What is read and what is left -/

theorem append_of_openCallBefore {taken : List Char}
    (h : openCallBefore literal depth cs = some (taken, rest)) : taken ++ rest = cs := by
  induction cs generalizing literal depth taken with
  | nil => simp [openCallBefore] at h
  | cons c cs ih =>
    cases hstep : backStep (literal, depth) c with
    | none =>
      rw [openCallBefore_of_backStep hstep] at h
      obtain ⟨rfl, rfl⟩ := Prod.mk.inj (Option.some.inj h)
      rfl
    | some state =>
      rw [openCallBefore_cons hstep, Option.map_eq_some_iff] at h
      obtain ⟨⟨read, left⟩, hread, heq⟩ := h
      obtain ⟨rfl, rfl⟩ := Prod.mk.inj heq
      rw [List.cons_append, ih hread]

theorem append_of_upTo {x : Char} {taken : List Char} (h : upTo x cs = some (taken, rest)) :
    taken ++ rest = cs := by
  induction cs generalizing taken with
  | nil => simp [upTo] at h
  | cons c cs ih =>
    rw [upTo] at h
    split at h
    · obtain ⟨rfl, rfl⟩ := Prod.mk.inj (Option.some.inj h)
      rfl
    · obtain ⟨⟨read, left⟩, hread, heq⟩ := Option.map_eq_some_iff.1 h
      obtain ⟨rfl, rfl⟩ := Prod.mk.inj heq
      rw [List.cons_append, ih hread]

theorem append_of_operandBackwards {taken : List Char}
    (h : operandBackwards cs = some (taken, rest)) : taken ++ rest = cs := by
  cases cs with
  | nil => simp [operandBackwards] at h
  | cons last cs =>
    have hmap : ∀ {read : Option (List Char × List Char)},
        (∀ found left, read = some (found, left) → found ++ left = cs) →
        read.map (fun (found, left) => (last :: found, left)) = some (taken, rest) →
        taken ++ rest = last :: cs := by
      intro read hread hmapped
      obtain ⟨⟨found, left⟩, hfound, heq⟩ := Option.map_eq_some_iff.1 hmapped
      obtain ⟨rfl, rfl⟩ := Prod.mk.inj heq
      rw [List.cons_append, hread found left hfound]
    simp only [operandBackwards] at h
    split at h
    · split at h
      · rename_i found left hopen
        obtain ⟨rfl, rfl⟩ := Prod.mk.inj (Option.some.inj h)
        rw [List.append_assoc, List.takeWhile_append_dropWhile, List.cons_append,
          append_of_openCallBefore hopen]
      · contradiction
    · split at h
      · exact hmap (fun _ _ => append_of_openQuoteBefore) h
      · split at h
        · exact hmap (fun _ _ => append_of_upTo) h
        · split at h
          · exact hmap (fun _ _ => append_of_upTo) h
          · split at h
            · obtain ⟨rfl, rfl⟩ := Prod.mk.inj (Option.some.inj h)
              exact List.takeWhile_append_dropWhile
            · contradiction

/-- The operand before a position, what comes before it, and the blanks behind it make up the
text. -/
theorem operandBefore_split {operand start before : List Char}
    (h : operandBefore before = some (operand, start)) :
    ∃ gap, before.reverse = start.reverse ++ (operand ++ gap) ∧
    ∀ c ∈ gap, isAsciiBlank c = true := by
  rw [operandBefore] at h
  split at h
  · rename_i taken left hback
    obtain ⟨rfl, rfl⟩ := Prod.mk.inj (Option.some.inj h)
    refine ⟨(before.takeWhile isAsciiBlank).reverse, ?_, fun c hc => ?_⟩
    · have hsplit := @List.takeWhile_append_dropWhile _ isAsciiBlank before
      rw [← append_of_operandBackwards hback] at hsplit
      conv_lhs => rw [← hsplit]
      simp
    · exact List.mem_takeWhile_imp (List.mem_reverse.1 hc)
  · contradiction

theorem closedBackwards_of_name (h : ∀ c ∈ text, isOperandChar c = true) : ClosedBackwards text :=
  closedBackwards_iff_passedOver.2 (passedOver_of_forall fun c hc =>
    ⟨ne_of_class (h c hc) (by decide), ne_of_class (h c hc) (by decide),
      ne_of_class (h c hc) (by decide)⟩)

/-- Behind its closing quote a literal is read backwards up to the opening one. -/
theorem back_of_openQuoteBefore {taken : List Char} (h : openQuoteBefore cs = some (taken, rest)) :
    back (true, depth) taken = some (false, depth) := by
  fun_induction openQuoteBefore cs generalizing taken rest with
  | case1 => contradiction
  | case2 cs ih =>
    obtain ⟨⟨read, left⟩, hread, heq⟩ := Option.map_eq_some_iff.1 h
    obtain ⟨rfl, rfl⟩ := Prod.mk.inj heq
    simpa [backStep] using ih hread
  | case3 cs =>
    obtain ⟨rfl, rfl⟩ := Prod.mk.inj (Option.some.inj h)
    simp [backStep]
  | case4 c cs _ hquote ih =>
    obtain ⟨⟨read, left⟩, hread, heq⟩ := Option.map_eq_some_iff.1 h
    obtain ⟨rfl, rfl⟩ := Prod.mk.inj heq
    simpa [backStep, hquote] using ih hread

/-- A call that the scan takes for an operand is closed. -/
theorem closedBackwards_of_openCallBefore {taken : List Char}
    (h : openCallBefore false 0 cs = some (taken, rest)) :
    ClosedBackwards (')' :: taken ++ rest.takeWhile isOperandChar).reverse := by
  obtain ⟨front, rfl⟩ := exists_concat_of_openCallBefore h
  have hsplit : front ++ '(' :: rest = cs := by simpa using append_of_openCallBefore h
  have hinner : ClosedBackwards front.reverse := by
    rw [ClosedBackwards, List.reverse_reverse]
    exact openCallBefore_eq_iff.1 (hsplit ▸ h)
  have hname := @closedBackwards_of_name (rest.takeWhile isOperandChar).reverse fun c hc =>
    List.mem_takeWhile_imp (List.mem_reverse.1 hc)
  rw [closedBackwards_iff_passedOver] at hinner hname ⊢
  simpa using hname.append (passedOver_parens hinner)

/-- Where literals have the only quotes, no quote of a name stands last before blanks. -/
theorem OnlyLiterals.last_before {gap : List Char} {last : Char}
    (honly : OnlyLiterals (gap ++ last :: cs).reverse)
    (hgap : ∀ c ∈ gap, isAsciiBlank c = true) (hquote : last ≠ '\'')
    (heven : insideLiteral (gap ++ last :: cs) = false) :
    last ≠ '"' ∧ last ≠ '`' ∧ last ≠ '[' ∧ last ≠ ']' := by
  refine honly cs.reverse last gap.reverse (by simp) ?_
  have hblanks : insideLiteral gap = false := insideLiteral_of_not_mem fun c hc => by
    refine beq_eq_false_iff_ne.2 ?_
    rintro rfl
    exact absurd (hgap _ hc) (by decide)
  rw [insideLiteral_append, hblanks, insideLiteral_cons, beq_eq_false_iff_ne.2 hquote] at heven
  simpa [insideLiteral_reverse] using heven

/-- Where literals have the only quotes an operand is closed: it is a call, a plain name, or a
literal. -/
theorem closedBackwards_of_operandBefore {operand start before : List Char}
    (h : operandBefore before = some (operand, start)) (heven : insideLiteral before = false)
    (honly : OnlyLiterals before.reverse) : ClosedBackwards operand := by
  rw [operandBefore] at h
  split at h
  · rename_i taken left hback
    obtain ⟨rfl, rfl⟩ := Prod.mk.inj (Option.some.inj h)
    have hgap : ∀ c ∈ before.takeWhile isAsciiBlank, isAsciiBlank c = true :=
      fun c => List.mem_takeWhile_imp
    have hsplit := @List.takeWhile_append_dropWhile _ isAsciiBlank before
    generalize before.takeWhile isAsciiBlank = gap at hgap hsplit
    generalize before.dropWhile isAsciiBlank = read at hback hsplit
    subst hsplit
    cases read with
    | nil => simp [operandBackwards] at hback
    | cons last cs =>
      simp only [operandBackwards] at hback
      split at hback
      · subst last
        split at hback
        · rename_i within behind hopen
          obtain ⟨rfl, rfl⟩ := Prod.mk.inj (Option.some.inj hback)
          exact closedBackwards_of_openCallBefore hopen
        · contradiction
      · split at hback
        · subst last
          obtain ⟨⟨within, behind⟩, hopen, heq⟩ := Option.map_eq_some_iff.1 hback
          obtain ⟨rfl, rfl⟩ := Prod.mk.inj heq
          rw [ClosedBackwards, List.reverse_reverse, back_cons]
          exact back_of_openQuoteBefore hopen
        · rename_i hquote
          have hname := honly.last_before hgap hquote heven
          rw [if_neg hname.2.2.2, if_neg (by simp [hname])] at hback
          split at hback
          · obtain ⟨rfl, rfl⟩ := Prod.mk.inj (Option.some.inj hback)
            exact closedBackwards_of_name fun c hc =>
              List.mem_takeWhile_imp (List.mem_reverse.1 hc)
          · contradiction
  · contradiction

end AskSql.Sql
