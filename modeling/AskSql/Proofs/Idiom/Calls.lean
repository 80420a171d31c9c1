import AskSql.Proofs.Idiom.Quiet
import AskSql.Proofs.Sql.Written

/-! How a call as it is written is rewritten: where the call as a whole is left alone, its name
stays and its arguments are rewritten one by one. -/

namespace AskSql.Idiom

open Text Sql

variable {rewriteAt? : List Char → Option (List Char × Nat)} {before : Option Char}
  {text rest : List Char}

/-! ### Joining pieces -/

theorem joins_of_head {front back : List Char} (hhead : ∃ c ∈ back.head?, isWordChar c = false)
    (hopen : ∃ c ∈ (trimStart back).head?, c ≠ '(') : Joins front back where
  free := by
    obtain ⟨c, hc, hw⟩ := hhead
    intro b _ d hd hdw
    obtain rfl : c = d := Option.mem_unique hc hd
    simp [hw] at hdw
  apart := by
    obtain ⟨c, hc, hw⟩ := hhead
    obtain ⟨d, hd, hne⟩ := hopen
    intro rest _ e _ _
    refine ⟨fun x hx => ?_, ?_⟩
    · rw [List.head?_append, Option.mem_def.1 hc] at hx
      obtain rfl : c = x := by simpa using hx
      exact hw
    · rw [trimStart_append_of_head (Option.mem_def.1 hd), List.head?_append, Option.mem_def.1 hd]
      simpa using hne

theorem joins_of_last {front back : List Char}
    (hlast : ∃ c ∈ front.getLast?, isWordChar c = false ∧ isAnchored (some c) = true) :
    Joins front back where
  free := by
    obtain ⟨c, hc, hw⟩ := hlast
    intro b hb _ _ _
    obtain rfl : c = b := Option.mem_unique hc hb
    exact hw
  apart := by
    obtain ⟨c, hc, hw, -⟩ := hlast
    intro rest _ d hd hdw
    obtain rfl : c = d := Option.mem_unique hc hd
    simp [hw] at hdw

theorem isAnchored_of_isBlank {c : Char} (h : isBlank c = true) : isAnchored (some c) = true := by
  cases ha : isAnchored (some c) with
  | true => rfl
  | false =>
    simp only [isAnchored, Bool.not_eq_false', Bool.or_eq_true, beq_iff_eq] at ha
    rcases ha with (((rfl | rfl) | rfl) | rfl) | rfl <;> exact absurd h (by decide)

theorem not_quote_of_isBlank {c : Char} (h : isBlank c = true) : c ≠ '\'' := by
  rintro rfl
  exact absurd h (by decide)

theorem joins_of_blank {front gap back : List Char} (hgap : blank gap = true) (hne : gap ≠ []) :
    Joins (front ++ gap) back := by
  have hlast : isBlank (gap.getLast hne) = true := List.all_eq_true.1 hgap _ (List.getLast_mem hne)
  refine joins_of_last ⟨gap.getLast hne, ?_, isWordChar_of_isBlank hlast,
    isAnchored_of_isBlank hlast⟩
  rw [List.getLast?_append, List.getLast?_eq_some_getLast hne]
  rfl

/-- After a separator any piece may follow, with or without white space before it. -/
theorem joins_of_separator {front gap back : List Char} {x : Char}
    (hx : isWordChar x = false ∧ isAnchored (some x) = true) (hgap : blank gap = true) :
    Joins (front ++ x :: gap) back := by
  cases gap with
  | nil => exact joins_of_last ⟨x, by rw [List.getLast?_concat]; rfl, hx⟩
  | cons c gap =>
    have h := @joins_of_blank (front ++ [x]) _ back hgap (by simp)
    simpa using h

/-- Before white space or a separator any piece may stand. -/
theorem joins_to_blank {front gap back : List Char} {x : Char} (hgap : blank gap = true)
    (hx : isBlank x = false ∧ x ≠ '(') (h : gap ≠ [] ∨ isWordChar x = false) :
    Joins front (gap ++ x :: back) := by
  refine joins_of_head ?_ ⟨x, ?_, hx.2⟩
  · cases gap with
    | nil => exact ⟨x, by simp, by simpa using h⟩
    | cons c gap => exact ⟨c, by simp, isWordChar_of_isBlank (List.all_eq_true.1 hgap c (by simp))⟩
  · rw [trimStart_append hgap, trimStart_of_head ⟨x, by simp, hx.1⟩]
    rfl

theorem rewriteWordsFrom_blank (hb : blank text = true) (rest : List Char) :
    rewriteWordsFrom rewriteAt? before false 0 (text ++ rest) =
      text ++ rewriteWordsFrom rewriteAt? (text.getLast?.or before) false 0 rest :=
  rewriteWordsFrom_between
    (fun c hc =>
      have hc : isBlank c = true := List.all_eq_true.1 hb c hc
      ⟨isWordChar_of_isBlank hc, not_quote_of_isBlank hc⟩) rest

/-! ### Arguments -/

/-- Before a comma or a parenthesis `piece` becomes `piece'`. -/
def RewritesPiece (rewriteAt? : List Char → Option (List Char × Nat)) (piece piece' : List Char) :
    Prop :=
  ∀ before x rest, (∀ b ∈ before, isWordChar b = false ∧ isAnchored (some b) = true) →
    (x = ',' ∨ x = ')') →
    rewriteWordsFrom rewriteAt? before false 0 (piece ++ x :: rest) =
      piece' ++ x :: rewriteWordsFrom rewriteAt? (some x) false 0 rest

/-- An argument is rewritten by itself, and the white space around it stays. -/
theorem rewritesPiece_padded {left arg arg' right : List Char} (hl : blank left = true)
    (hr : blank right = true) (harg : Rewrites rewriteAt? arg arg') :
    RewritesPiece rewriteAt? (left ++ arg ++ right) (left ++ arg' ++ right) := by
  intro before x rest hbefore hx
  have hxw : isWordChar x = false ∧ x ≠ '\'' := by rcases hx with rfl | rfl <;> decide
  have hfree : Free (left.getLast?.or before) arg := by
    intro b hb _ _ _
    cases hlast : left.getLast? with
    | none =>
      rw [hlast, Option.none_or] at hb
      exact hbefore b hb
    | some d =>
      rw [hlast] at hb
      obtain rfl : d = b := by simpa using hb
      have hd : isBlank d = true := List.all_eq_true.1 hl d (List.mem_of_getLast? hlast)
      exact ⟨isWordChar_of_isBlank hd, isAnchored_of_isBlank hd⟩
  have hapart : Apart arg (right ++ x :: rest) := by
    intro _ _ _
    refine ⟨fun d hd => ?_, ?_⟩
    · cases right with
      | nil =>
        obtain rfl : x = d := by simpa using hd
        exact hxw.1
      | cons e right =>
        obtain rfl : e = d := by simpa using hd
        exact isWordChar_of_isBlank (List.all_eq_true.1 hr e (by simp))
    · rw [trimStart_append hr, trimStart_of_head
        ⟨x, by simp, by rcases hx with rfl | rfl <;> decide⟩]
      rcases hx with rfl | rfl <;> simp
  have hend := @rewriteWordsFrom_between rewriteAt?
    (right.getLast?.or (arg.getLast?.or (left.getLast?.or before))) [x] (by simpa using hxw) rest
  rw [List.append_assoc, List.append_assoc, rewriteWordsFrom_blank hl, harg _ _ hfree hapart,
    rewriteWordsFrom_blank hr]
  simpa using hend

theorem rewriteWordsFrom_pieces {pieces pieces' : List (List Char)}
    (h : List.Forall₂ (RewritesPiece rewriteAt?) pieces pieces')
    (hbefore : ∀ b ∈ before, isWordChar b = false ∧ isAnchored (some b) = true) (rest : List Char) :
    rewriteWordsFrom rewriteAt? before false 0 ([','].intercalate pieces ++ ')' :: rest) =
      [','].intercalate pieces' ++ ')' :: rewriteWordsFrom rewriteAt? (some ')') false 0 rest := by
  induction h generalizing before with
  | nil =>
    have hend := @rewriteWordsFrom_between rewriteAt? before [')'] (by decide) rest
    simpa using hend
  | @cons piece piece' pieces pieces' hpiece hmore ih =>
    cases hmore with
    | nil => simpa using hpiece before ')' rest hbefore (Or.inr rfl)
    | cons =>
      have hnext := @ih (some ',') (by decide)
      rw [intercalate_cons piece (by simp), intercalate_cons piece' (by simp), List.append_assoc,
        List.cons_append, hpiece before ',' _ hbefore (Or.inl rfl), hnext]
      simp

/-- A call that is left alone as a whole keeps its name, and its arguments are rewritten. -/
theorem rewrites_pieces {name gap : List Char} {pieces pieces' : List (List Char)}
    (hname : IsName name) (hgap : blank gap = true)
    (h : List.Forall₂ (RewritesPiece rewriteAt?) pieces pieces')
    (hnone : ∀ rest,
      rewriteAt? (name ++ gap ++ '(' :: [','].intercalate pieces ++ [')'] ++ rest) = none) :
    Rewrites rewriteAt? (name ++ gap ++ '(' :: [','].intercalate pieces ++ [')'])
      (name ++ gap ++ '(' :: [','].intercalate pieces' ++ [')']) := by
  have hsplit : ∀ pieces : List (List Char),
      name ++ gap ++ '(' :: [','].intercalate pieces ++ [')'] =
        name ++ (gap ++ '(' :: ([','].intercalate pieces ++ [')'])) := by simp
  rw [hsplit] at hnone
  rw [hsplit, hsplit]
  refine rewrites_word_append hname.ne_nil
    (fun c hc => isWordChar_of_isNameChar (hname.chars c hc)) ?_ ?_ hnone
  · intro before rest _ _
    have hopen := @rewriteWordsFrom_between rewriteAt? (gap.getLast?.or before) ['('] (by decide)
      ([','].intercalate pieces ++ ')' :: rest)
    have hinner := @rewriteWordsFrom_pieces rewriteAt? (some '(') _ _ h (by decide) rest
    have hassoc : gap ++ '(' :: ([','].intercalate pieces ++ [')']) ++ rest =
        gap ++ (['('] ++ ([','].intercalate pieces ++ ')' :: rest)) := by simp
    have hlast : (gap ++ '(' :: ([','].intercalate pieces ++ [')'])).getLast? = some ')' := by
      rw [List.getLast?_append, ← List.cons_append, List.getLast?_concat, Option.some_or]
    rw [hassoc, hlast, rewriteWordsFrom_blank hgap, hopen]
    simp only [List.getLast?_singleton, Option.some_or, hinner]
    simp
  · obtain ⟨c, hc⟩ : ∃ c, c ∈ (gap ++ '(' :: ([','].intercalate pieces ++ [')'])).head? := by
      cases gap <;> simp
    exact ⟨c, hc, IsCall.head_gap hgap c hc⟩

/-- The arguments of a call that is left alone as a whole are rewritten. -/
theorem exists_rewrites_written {name : List Char} {args args' : List (List Char)}
    (h : Written name args text) (hname : IsName name)
    (hargs : List.Forall₂ (Rewrites rewriteAt?) args args')
    (hnone : ∀ rest, rewriteAt? (text ++ rest) = none) :
    ∃ text', Written name args' text' ∧ Rewrites rewriteAt? text text' := by
  obtain ⟨gap, pieces, hgap, hpad⟩ := h
  obtain ⟨pieces', hpad', hpieces⟩ : ∃ pieces', List.Forall₂ Padded args' pieces' ∧
      List.Forall₂ (RewritesPiece rewriteAt?) pieces pieces' := by
    clear hnone
    induction hpad generalizing args' with
    | nil =>
      cases hargs
      exact ⟨[], .nil, .nil⟩
    | cons hpad _ ih =>
      cases hargs with
      | @cons _ arg' _ args' harg hargs =>
        obtain ⟨left, right, hl, hr, rfl⟩ := hpad
        obtain ⟨pieces', hpad', hpieces⟩ := ih hargs
        exact ⟨(left ++ arg' ++ right) :: pieces', .cons ⟨left, right, hl, hr, rfl⟩ hpad',
          .cons (rewritesPiece_padded hl hr harg) hpieces⟩
  exact ⟨_, .intro gap pieces' hgap hpad', rewrites_pieces hname hgap hpieces hnone⟩

/-- A call that is left alone as a whole stays if its arguments do. -/
theorem rewrites_written {name : List Char} {args : List (List Char)} (h : Written name args text)
    (hname : IsName name) (hargs : ∀ arg ∈ args, Rewrites rewriteAt? arg arg)
    (hnone : ∀ rest, rewriteAt? (text ++ rest) = none) : Rewrites rewriteAt? text text := by
  obtain ⟨gap, pieces, hgap, hpad⟩ := h
  refine rewrites_pieces hname hgap ?_ hnone
  clear hnone
  induction hpad with
  | nil => exact .nil
  | cons hpad _ ih =>
    obtain ⟨left, right, hl, hr, rfl⟩ := hpad
    exact .cons (rewritesPiece_padded hl hr (hargs _ (by simp)))
      (ih fun arg harg => hargs arg (List.mem_cons_of_mem _ harg))

end AskSql.Idiom
