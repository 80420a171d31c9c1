import AskSql.Proofs.Idiom.Spelling

/-! Operands, read backwards from the sign that follows them.  The scan takes a name as far as it
goes, and a call from its last parenthesis back to its first and on to its name. -/

namespace AskSql.Idiom

open Text Sql

variable {text front back : List Char}

/-! ### Characters -/

theorem isBlank_of_isAsciiBlank {c : Char} (h : isAsciiBlank c = true) : isBlank c = true := by
  simp only [isAsciiBlank, Bool.or_eq_true, beq_iff_eq] at h
  rcases h with (((rfl | rfl) | rfl) | rfl) | rfl <;> decide

theorem blank_of_isAsciiBlank {gap : List Char} (h : ∀ c ∈ gap, isAsciiBlank c = true) :
    blank gap = true :=
  List.all_eq_true.2 fun c hc => isBlank_of_isAsciiBlank (h c hc)

theorem isOperandChar_of_isWordChar {c : Char} (h : isWordChar c = true) :
    isOperandChar c = true := by
  rw [isWordChar] at h
  split at h
  · simp only [isOperandChar, Bool.or_eq_true] at h ⊢
    exact Or.inl (Or.inl h)
  · rename_i hhigh
    simp only [isOperandChar, Bool.or_eq_true, decide_eq_true_eq]
    exact Or.inr (by omega)

/-! ### Backwards over a call -/

/-- The search for the beginning of a call passes over `text`. -/
def PassedOver (text : List Char) : Prop :=
  ∀ depth rest, openCallBefore false depth (text.reverse ++ rest) =
    (openCallBefore false depth rest).map fun (taken, rest) => (text.reverse ++ taken, rest)

theorem PassedOver.append (hf : PassedOver front) (hb : PassedOver back) :
    PassedOver (front ++ back) := by
  intro depth rest
  rw [List.reverse_append, List.append_assoc, hb, hf, Option.map_map]
  cases openCallBefore false depth rest <;> simp

theorem passedOver_of_forall (h : ∀ c ∈ text, c ≠ '\'' ∧ c ≠ '(' ∧ c ≠ ')') : PassedOver text := by
  intro depth rest
  induction text generalizing rest with
  | nil => simp
  | cons c text ih =>
    obtain ⟨hquote, hopen, hclose⟩ := h c (by simp)
    have hmore := ih (fun d hd => h d (List.mem_cons_of_mem c hd)) (c :: rest)
    have hstep : openCallBefore false depth (c :: rest) =
        (openCallBefore false depth rest).map fun (taken, rest) => (c :: taken, rest) := by
      simp [openCallBefore, hquote, hopen, hclose]
    rw [List.reverse_cons, List.append_assoc, List.singleton_append, hmore, hstep, Option.map_map]
    cases openCallBefore false depth rest <;> simp

theorem passedOver_quoted (hquote : '\'' ∉ text) : PassedOver (quoted text) := by
  have hinside : ∀ depth rest, openCallBefore true depth (text.reverse ++ rest) =
      (openCallBefore true depth rest).map fun (taken, rest) => (text.reverse ++ taken, rest) := by
    intro depth rest
    induction text generalizing rest with
    | nil => simp
    | cons c text ih =>
      have hc : c ≠ '\'' := by
        rintro rfl
        simp at hquote
      have hmore := ih (fun hmem => hquote (List.mem_cons_of_mem c hmem)) (c :: rest)
      have hstep : openCallBefore true depth (c :: rest) =
          (openCallBefore true depth rest).map fun (taken, rest) => (c :: taken, rest) := by
        simp [openCallBefore, hc]
      rw [List.reverse_cons, List.append_assoc, List.singleton_append, hmore, hstep, Option.map_map]
      cases openCallBefore true depth rest <;> simp
  intro depth rest
  have hreverse : (quoted text).reverse ++ rest = '\'' :: (text.reverse ++ '\'' :: rest) := by
    simp [quoted]
  have hclose : openCallBefore false depth ('\'' :: (text.reverse ++ '\'' :: rest)) =
      (openCallBefore true depth (text.reverse ++ '\'' :: rest)).map
        fun (taken, rest) => ('\'' :: taken, rest) := by
    simp [openCallBefore]
  have hopen : openCallBefore true depth ('\'' :: rest) =
      (openCallBefore false depth rest).map fun (taken, rest) => ('\'' :: taken, rest) := by
    simp [openCallBefore]
  rw [hreverse, hclose, hinside, hopen]
  cases openCallBefore false depth rest <;> simp [quoted]

/-- The search passes over a call in parentheses. -/
theorem passedOver_parens (h : PassedOver text) : PassedOver ('(' :: text ++ [')']) := by
  intro depth rest
  have hreverse : ('(' :: text ++ [')']).reverse ++ rest =
      ')' :: (text.reverse ++ '(' :: rest) := by
    simp
  have hclose : openCallBefore false depth (')' :: (text.reverse ++ '(' :: rest)) =
      (openCallBefore false (depth + 1) (text.reverse ++ '(' :: rest)).map
        fun (taken, rest) => (')' :: taken, rest) := by
    simp [openCallBefore]
  have hopen : openCallBefore false (depth + 1) ('(' :: rest) =
      (openCallBefore false depth rest).map fun (taken, rest) => ('(' :: taken, rest) := by
    simp [openCallBefore]
  rw [hreverse, hclose, h, hopen]
  cases openCallBefore false depth rest <;> simp

theorem passedOver_intercalate {comma : List Char} (hcomma : PassedOver comma)
    {args : List (List Char)} (h : ∀ a ∈ args, PassedOver a) :
    PassedOver (comma.intercalate args) := by
  induction args with
  | nil => exact passedOver_of_forall (by simp)
  | cons arg args ih =>
    cases hargs : args with
    | nil => simpa using h arg (by simp)
    | cons next more =>
      have hmore := ih fun a ha => h a (List.mem_cons_of_mem _ ha)
      rw [List.intercalate_cons_of_ne_nil (by simp), ← hargs]
      simpa using ((h arg (by simp)).append hcomma).append hmore

theorem passedOver_args {args : List (List Char)} (h : ∀ a ∈ args, PassedOver a) :
    PassedOver (", ".toList.intercalate args) :=
  passedOver_intercalate (passedOver_of_forall (by decide)) h

theorem passedOver_call {name : String} {args : List (List Char)} (hname : IsName name.toList)
    (h : ∀ a ∈ args, PassedOver a) : PassedOver (call name args) := by
  have hfront : PassedOver name.toList := passedOver_of_forall fun c hc => by
    have hchar := hname.chars c hc
    refine ⟨?_, ?_, ?_⟩ <;> (rintro rfl; exact absurd hchar (by decide))
  simpa [call] using hfront.append (passedOver_parens (passedOver_args h))

/-! ### Operands -/

/-- `text` is read backwards as one operand, which begins where `front` ends. -/
structure OperandBehind (front text : List Char) : Prop where
  backwards : operandBackwards (front ++ text).reverse = some (text.reverse, front.reverse)
  last : ∃ c ∈ text.getLast?, isBlank c = false

theorem OperandBehind.operandBefore_eq (h : OperandBehind front text) {gap : List Char}
    (hgap : ∀ c ∈ gap, isAsciiBlank c = true) :
    operandBefore (front ++ text ++ gap).reverse = some (text, front.reverse) := by
  obtain ⟨c, hc, hblank⟩ := h.last
  have hstop : ∀ d ∈ (front ++ text).reverse.head?, isAsciiBlank d = false := by
    intro d hd
    obtain rfl : c = d := by
      rw [List.head?_reverse, List.getLast?_append, Option.mem_def.1 hc] at hd
      simpa using hd
    cases ha : isAsciiBlank c with
    | false => rfl
    | true => simp [isBlank_of_isAsciiBlank ha] at hblank
  rw [operandBefore, List.reverse_append,
    dropWhile_append (by simpa using hgap) hstop, h.backwards]
  simp

/-- `text` is read backwards as one operand. -/
structure IsOperand (text : List Char) : Prop where
  backwards : operandBackwards text.reverse = some (text.reverse, [])
  last : ∃ c ∈ text.getLast?, isBlank c = false

theorem IsOperand.behind_nil (h : IsOperand text) : OperandBehind [] text :=
  ⟨h.backwards, h.last⟩

theorem isOperandChar_of_isNameChar {c : Char} (h : isNameChar c = true) : isOperandChar c = true :=
  isOperandChar_of_isWordChar (isWordChar_of_isNameChar h)

/-- A call is an operand if the search for its beginning passes over its arguments. -/
theorem isOperand_call {name : String} {args : List (List Char)} (hname : IsName name.toList)
    (h : ∀ a ∈ args, PassedOver a) : IsOperand (call name args) := by
  refine ⟨?_, ')', by rw [call, List.getLast?_concat]; rfl, by decide⟩
  have hchars : ∀ c ∈ name.toList.reverse, isOperandChar c = true := fun c hc =>
    isOperandChar_of_isNameChar (hname.chars c (by simpa using hc))
  have hreverse : (call name args).reverse =
      ')' :: ((", ".toList.intercalate args).reverse ++ '(' :: name.toList.reverse) := by
    simp [call]
  have hopen : openCallBefore false 0 ('(' :: name.toList.reverse) =
      some (['('], name.toList.reverse) := by
    simp [openCallBefore]
  rw [hreverse, operandBackwards, if_pos rfl, passedOver_args h, hopen]
  simp only [Option.map_some, List.takeWhile_eq_self_iff.2 hchars,
    List.dropWhile_eq_nil_iff.2 hchars]
  simp

/-- Characters of plain names are read backwards as far as they go. -/
theorem operandBackwards_append {rest : List Char} (hne : text ≠ [])
    (h : ∀ c ∈ text, isOperandChar c = true) (hrest : ∀ c ∈ rest.head?, isOperandChar c = false) :
    operandBackwards (text ++ rest) = some (text, rest) := by
  have htake : (text ++ rest).takeWhile isOperandChar = text := takeWhile_append h hrest
  have hdrop : (text ++ rest).dropWhile isOperandChar = rest := dropWhile_append h hrest
  obtain ⟨c, cs, rfl⟩ := List.exists_cons_of_ne_nil hne
  have hc := h c (by simp)
  have hother : ∀ x : Char, isOperandChar x = false → c ≠ x := by
    rintro x hx rfl
    simp [hc] at hx
  rw [List.cons_append] at htake hdrop ⊢
  rw [operandBackwards, if_neg (hother ')' (by decide)), if_neg (hother '\'' (by decide)),
    if_neg (hother ']' (by decide)),
    if_neg (by simp [hother '`' (by decide), hother '"' (by decide)]),
    if_pos hc, htake, hdrop]

theorem Column.isOperand (column : Column) : IsOperand column.text := by
  have hchars := column.forall_mem (p := fun c => isOperandChar c = true)
    (fun _ => isOperandChar_of_isWordChar) (by decide)
  have hback := @operandBackwards_append column.text.reverse []
    (List.reverse_ne_nil_iff.2 column.ne_nil) (by simpa using hchars) (by simp)
  exact ⟨by simpa using hback, column.isArg.trimmed.last⟩

theorem Column.passedOver (column : Column) : PassedOver column.text :=
  passedOver_of_forall (column.forall_mem
    (fun c hc =>
    ⟨by rintro rfl; exact absurd hc (by decide), by rintro rfl; exact absurd hc (by decide),
      by rintro rfl; exact absurd hc (by decide)⟩) (by decide))

end AskSql.Idiom
