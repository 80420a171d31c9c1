import Mathlib.Data.List.Forall2
import AskSql.Idiom.Rewrite
import AskSql.Proofs.Sql.Nesting

/-! Calls as they are written: the name in any case, white space before the opening parenthesis, and
white space around each argument.  A call of closed arguments reads back as its name and its
arguments, and is closed itself. -/

namespace AskSql.Sql

open Text Idiom

/-! ### Names -/

/-- `name` can be the name of a call. -/
structure IsName (name : List Char) : Prop where
  start : ∃ c ∈ name.head?, isNameStart c = true
  chars : ∀ c ∈ name, isNameChar c = true

instance (name : List Char) : Decidable (IsName name) :=
  decidable_of_iff ((name.head?.any isNameStart = true) ∧ ∀ c ∈ name, isNameChar c = true)
    ⟨fun h => ⟨by simpa [Option.any_eq_true] using h.1, h.2⟩,
      fun h => ⟨by simpa [Option.any_eq_true] using h.start, h.chars⟩⟩

theorem IsName.ne_nil {name : List Char} (h : IsName name) : name ≠ [] := by
  rintro rfl
  obtain ⟨c, hc, -⟩ := h.start
  simp at hc

theorem isWordChar_of_isNameChar {c : Char} (h : isNameChar c = true) : isWordChar c = true := by
  have hlow : c.toNat < 128 := by
    unfold isNameChar Char.isAlphanum Char.isAlpha Char.isUpper Char.isLower Char.isDigit at h
    simp only [Bool.or_eq_true, beq_iff_eq, Bool.and_eq_true, decide_eq_true_eq,
      UInt32.le_iff_toNat_le] at h
    rcases h with ((h | h) | h) | rfl
    · exact Nat.lt_of_le_of_lt h.2 (by decide)
    · exact Nat.lt_of_le_of_lt h.2 (by decide)
    · exact Nat.lt_of_le_of_lt h.2 (by decide)
    · decide
  simp only [isNameChar] at h
  simp [isWordChar, hlow, h]

theorem isNameChar_of_isNameStart {c : Char} (h : isNameStart c = true) : isNameChar c = true := by
  simp only [isNameStart, isNameChar, Bool.or_eq_true, Char.isAlphanum] at h ⊢
  grind

/-- A map of characters that moves letters only. -/
theorem toUpper_eq_or_isAlpha (c : Char) : c.toUpper = c ∨ c.isAlpha = true := by
  unfold Char.toUpper
  split
  · rename_i h
    unfold Char.isAlpha Char.isLower
    simp only [Bool.or_eq_true, Bool.and_eq_true, decide_eq_true_eq]
    exact Or.inr (Or.inr h)
  · exact Or.inl rfl

theorem toLower_eq_or_isAlpha (c : Char) : c.toLower = c ∨ c.isAlpha = true := by
  unfold Char.toLower
  split
  · rename_i h
    unfold Char.isAlpha Char.isUpper
    simp only [Bool.or_eq_true, decide_eq_true_eq]
    exact Or.inr (Or.inl h)
  · exact Or.inl rfl

theorem IsName.of_map {f : Char → Char} (hf : ∀ c, f c = c ∨ c.isAlpha = true) {name : List Char}
    (h : IsName (name.map f)) : IsName name := by
  refine ⟨?_, fun c hc => ?_⟩
  · obtain ⟨c, hc, hs⟩ := h.start
    cases name with
    | nil => simp at hc
    | cons d name =>
      obtain rfl : f d = c := by simpa using hc
      refine ⟨d, by simp, ?_⟩
      rcases hf d with heq | halpha
      · rwa [heq] at hs
      · simp [isNameStart, halpha]
  · have hs := h.chars (f c) (List.mem_map_of_mem hc)
    rcases hf c with heq | halpha
    · rwa [heq] at hs
    · simp [isNameChar, Char.isAlphanum, halpha]

theorem isName_of_ofName? {name : List Char} {function : DateFunction}
    (h : DateFunction.ofName? name = some function) : IsName name := by
  have hall : ∀ entry ∈ DateFunction.names, IsName entry.1.toList := by decide
  obtain ⟨front, back, hsplit, -⟩ := List.lookup_eq_some_iff.1 h
  have hname := hall (String.ofList (upperAscii name), function) (by rw [hsplit]; simp)
  rw [String.toList_ofList] at hname
  exact hname.of_map toUpper_eq_or_isAlpha

theorem isName_of_sameAscii {name : List Char} {key : String} (h : sameAscii name key.toList = true)
    (hkey : IsName (key.toList.map Char.toLower)) : IsName name := by
  rw [sameAscii, beq_iff_eq] at h
  exact (h ▸ hkey).of_map toLower_eq_or_isAlpha

/-! ### Calls -/

/-- `text` is a call of `name` with `inner` between its parentheses. -/
structure IsCall (name inner text : List Char) : Prop where
  named : IsName name
  split : ∃ gap, blank gap = true ∧ text = name ++ gap ++ '(' :: inner ++ [')']
  closes : ∀ rest, closeCall (inner ++ ')' :: rest) = some (inner, rest)

namespace IsCall

variable {name inner text : List Char}

theorem trimmed (h : IsCall name inner text) : Trimmed text := by
  obtain ⟨gap, -, rfl⟩ := h.split
  obtain ⟨c, hc, hs⟩ := h.named.start
  have hblank := isBlank_of_isWordChar (isWordChar_of_isNameChar (isNameChar_of_isNameStart hs))
  have h := @Trimmed.append _ [')'] ⟨c, hc, hblank⟩ ⟨')', by simp, by decide⟩
    (gap ++ '(' :: inner)
  simpa using h

/-- What follows the name of a call does not go on with the name. -/
theorem head_gap {gap rest : List Char} (hgap : blank gap = true) :
    ∀ c ∈ (gap ++ '(' :: rest).head?, isWordChar c = false := by
  intro c hc
  cases gap with
  | nil =>
    obtain rfl : '(' = c := by simpa using hc
    decide
  | cons d gap =>
    obtain rfl : d = c := by simpa using hc
    simp only [blank, List.all_cons, Bool.and_eq_true] at hgap
    exact isWordChar_of_isBlank hgap.1

theorem word_eq (h : IsCall name inner text) (rest : List Char) :
    ∃ gap, blank gap = true ∧ word (text ++ rest) = (name, gap ++ '(' :: inner ++ ')' :: rest) := by
  obtain ⟨gap, hgap, rfl⟩ := h.split
  refine ⟨gap, hgap, ?_⟩
  have hsplit : name ++ gap ++ '(' :: inner ++ [')'] ++ rest =
      name ++ (gap ++ '(' :: (inner ++ ')' :: rest)) := by simp
  rw [hsplit, word_append (fun c hc => isWordChar_of_isNameChar (h.named.chars c hc))
    (head_gap hgap)]
  simp

/-- A call of a date function is found at the front of a text, whatever follows it. -/
theorem callAt?_eq (h : IsCall name inner text) {function : DateFunction}
    (hf : DateFunction.ofName? name = some function) (rest : List Char) :
    callAt? (text ++ rest) = some (function, inner, rest) := by
  obtain ⟨gap, hgap, hword⟩ := h.word_eq rest
  have hstart : trimStart (gap ++ '(' :: inner ++ ')' :: rest) = '(' :: (inner ++ ')' :: rest) := by
    rw [List.append_assoc, trimStart_append hgap]
    exact trimStart_of_head ⟨'(', by simp, by decide⟩
  simp only [callAt?, hword, hf, hstart, char?, Option.bind_eq_bind, Option.bind_some, if_true,
    h.closes rest]
  rfl

/-- A call is a call as a whole. -/
theorem callParts_eq (h : IsCall name inner text) : callParts text = some (name, inner) := by
  have htrim := h.trimmed.trim_eq
  obtain ⟨c, hc, hs⟩ := h.named.start
  obtain ⟨gap, hgap, rfl⟩ := h.split
  have hsplit : name ++ gap ++ '(' :: inner ++ [')'] =
      name ++ (gap ++ '(' :: (inner ++ [')'])) := by
    simp
  have hstop : ∀ c ∈ (gap ++ '(' :: (inner ++ [')'])).head?, isNameChar c = false := by
    intro d hd
    cases hn : isNameChar d with
    | false => rfl
    | true =>
      have hword := isWordChar_of_isNameChar hn
      simp [head_gap hgap d hd] at hword
  have hhead : (name ++ (gap ++ '(' :: (inner ++ [')']))).head? = some c := by
    simp [List.head?_append, Option.mem_def.1 hc]
  have hstart : trimStart (gap ++ '(' :: (inner ++ [')'])) = '(' :: (inner ++ [')']) := by
    rw [trimStart_append hgap]
    exact trimStart_of_head ⟨'(', by simp, by decide⟩
  rw [hsplit] at htrim
  rw [callParts, hsplit, htrim]
  simp only [hhead, Option.map_some, hs, Option.getD_some, if_true,
    dropWhile_append h.named.chars hstop, takeWhile_append h.named.chars hstop, hstart, h.closes []]

end IsCall

/-- `piece` is `arg` with white space around it. -/
def Padded (arg piece : List Char) : Prop :=
  ∃ left right, blank left = true ∧ blank right = true ∧ piece = left ++ arg ++ right

/-- `text` is a call of `name` with the arguments `args` and any white space around its parts. -/
inductive Written (name : List Char) (args : List (List Char)) : List Char → Prop
  | intro (gap : List Char) (pieces : List (List Char)) (hgap : blank gap = true)
      (hargs : List.Forall₂ Padded args pieces) :
      Written name args (name ++ gap ++ '(' :: [','].intercalate pieces ++ [')'])

/-- What can stand as an argument of a call. -/
structure IsArg (arg : List Char) : Prop where
  closed : Closed arg
  trimmed : Trimmed arg

/-- Whether `c` opens or closes a region or a call, or parts arguments. -/
def isMark (c : Char) : Bool :=
  Region.isQuote c || c == '[' || c == '(' || c == ')' || c == ','

theorem closed_of_not_isMark {text : List Char} (h : ∀ c ∈ text, isMark c = false) :
    Closed text := by
  induction text with
  | nil => rfl
  | cons c text ih =>
    have hc := h c (by simp)
    simp only [isMark, Bool.or_eq_false_iff, beq_eq_false_iff_ne] at hc
    obtain ⟨⟨⟨⟨hquote, hbracket⟩, hopen⟩, hclose⟩, hcomma⟩ := hc
    rw [Closed, nest_cons]
    simpa [Closed, nestStep, Region.next, hquote, hbracket, hopen, hclose, hcomma] using
      ih fun d hd => h d (List.mem_cons_of_mem _ hd)

theorem isMark_of_not_mem {p : Char → Bool}
    (hp : ∀ x ∈ ['\'', '"', '`', '[', '(', ')', ','], p x = false) {c : Char} (hc : p c = true) :
    isMark c = false := by
  have hne : ∀ x ∈ ['\'', '"', '`', '[', '(', ')', ','], c ≠ x := fun x hx =>
    ne_of_class hc (hp x hx)
  simp only [List.mem_cons, List.not_mem_nil, or_false, forall_eq_or_imp, forall_eq] at hne
  simp [isMark, Region.isQuote, hne]

theorem isMark_of_isBlank {c : Char} (h : isBlank c = true) : isMark c = false :=
  isMark_of_not_mem (by decide) h

theorem isMark_of_isWordChar {c : Char} (h : isWordChar c = true) : isMark c = false :=
  isMark_of_not_mem (by decide) h

theorem closed_of_blank {text : List Char} (h : blank text = true) : Closed text :=
  closed_of_not_isMark fun c hc => isMark_of_isBlank (List.all_eq_true.1 h c hc)

theorem Padded.closed {arg piece : List Char} (h : Padded arg piece) (harg : IsArg arg) :
    Closed piece := by
  obtain ⟨left, right, hl, hr, rfl⟩ := h
  exact ((closed_of_blank hl).append harg.closed).append (closed_of_blank hr)

theorem Padded.trim_eq {arg piece : List Char} (h : Padded arg piece) (harg : IsArg arg) :
    trim piece = arg := by
  obtain ⟨left, right, hl, hr, rfl⟩ := h
  exact harg.trimmed.trim_padded hl hr

section Pieces

variable {args pieces : List (List Char)} (h : List.Forall₂ Padded args pieces)
  (hargs : ∀ arg ∈ args, IsArg arg)
include h hargs

theorem closed_of_padded : ∀ piece ∈ pieces, Closed piece := by
  induction h with
  | nil => simp
  | cons hpad _ ih =>
    intro piece hpiece
    rcases List.mem_cons.1 hpiece with rfl | hpiece
    · exact hpad.closed (hargs _ (by simp))
    · exact ih (fun arg harg => hargs arg (List.mem_cons_of_mem _ harg)) piece hpiece

theorem map_trim_of_padded : pieces.map trim = args := by
  induction h with
  | nil => rfl
  | cons hpad _ ih =>
    rw [List.map_cons, hpad.trim_eq (hargs _ (by simp)),
      ih fun arg harg => hargs arg (List.mem_cons_of_mem _ harg)]

/-- The text between the parentheses of a call splits into its arguments. -/
theorem splitArgs_of_padded (hne : args ≠ []) : splitArgs ([','].intercalate pieces) = args := by
  have hpieces : pieces ≠ [] := by
    rintro rfl
    simp_all
  have hblank : blank ([','].intercalate pieces) = false := by
    obtain ⟨arg, args, piece, pieces, rfl, rfl⟩ :
        ∃ arg args' piece pieces', args = arg :: args' ∧ pieces = piece :: pieces' := by
      cases h with
      | nil => contradiction
      | cons => exact ⟨_, _, _, _, rfl, rfl⟩
    obtain ⟨⟨left, right, -, -, rfl⟩, -⟩ := List.forall₂_cons.1 h
    obtain ⟨c, hc, hb⟩ := (hargs arg (by simp)).trimmed.head
    have hmem : c ∈ arg := List.mem_of_head? hc
    rw [blank, List.all_eq_false]
    refine ⟨c, ?_, by simp [hb]⟩
    cases pieces with
    | nil => simp [hmem]
    | cons => simp [hmem]
  rw [splitArgs, hblank, if_neg (by simp),
    splitArgsFrom_intercalate hpieces (closed_of_padded h hargs), map_trim_of_padded h hargs]

end Pieces

/-- A call as it is written is a call whose text between the parentheses splits into its arguments.
Around a single argument that text only adds white space. -/
theorem Written.isCall {name text : List Char} {args : List (List Char)}
    (h : Written name args text) (hname : IsName name) (hargs : ∀ arg ∈ args, IsArg arg)
    (hne : args ≠ []) :
    ∃ inner, IsCall name inner text ∧ splitArgs inner = args ∧
      ∀ arg, args = [arg] → trim inner = arg := by
  obtain ⟨gap, pieces, hgap, hpieces⟩ := h
  have hclosed := closed_of_padded hpieces hargs
  refine ⟨_, ⟨hname, ⟨gap, hgap, rfl⟩, closeCall_intercalate hclosed⟩,
    splitArgs_of_padded hpieces hargs hne, ?_⟩
  rintro arg rfl
  obtain ⟨piece, rfl⟩ : ∃ piece, pieces = [piece] := by
    rcases List.forall₂_cons_left_iff.1 hpieces with ⟨piece, rest, -, hrest, rfl⟩
    exact ⟨piece, by rw [List.forall₂_nil_left_iff.1 hrest]⟩
  simpa using map_trim_of_padded hpieces hargs

theorem Written.paren_mem {name text : List Char} {args : List (List Char)}
    (h : Written name args text) : '(' ∈ text := by
  obtain ⟨gap, pieces, -, -⟩ := h
  simp

/-- What holds of the parts of a call and is kept by joining holds of the call. -/
theorem Written.of_parts {p : List Char → Prop} {name text : List Char} {args : List (List Char)}
    (h : Written name args text) (happend : ∀ {front back}, p front → p back → p (front ++ back))
    (hblank : ∀ gap, blank gap = true → p gap) (hmarks : ∀ c ∈ ['(', ',', ')'], p [c])
    (hname : p name) (hargs : ∀ arg ∈ args, p arg) : p text := by
  obtain ⟨gap, pieces, hgap, hpad⟩ := h
  have hpieces : ∀ piece ∈ pieces, p piece := by
    induction hpad with
    | nil => simp
    | cons hpad _ ih =>
      obtain ⟨left, right, hl, hr, rfl⟩ := hpad
      have hfirst :=
        happend (happend (hblank left hl) (hargs _ List.mem_cons_self)) (hblank right hr)
      have hmore := ih fun arg harg => hargs arg (List.mem_cons_of_mem _ harg)
      exact List.forall_mem_cons.2 ⟨hfirst, hmore⟩
  have hinner : p ([','].intercalate pieces) := by
    clear hpad
    induction pieces with
    | nil => exact hblank [] rfl
    | cons piece pieces ih =>
      have hmore := ih fun piece hpiece => hpieces piece (List.mem_cons_of_mem _ hpiece)
      have hpiece := hpieces piece List.mem_cons_self
      cases hp : pieces with
      | nil => simpa using hpiece
      | cons next more =>
        rw [intercalate_cons piece (by simp), ← hp]
        simpa using happend hpiece (happend (hmarks ',' (by simp)) hmore)
  have hopen := happend (hmarks '(' (by simp)) hinner
  exact happend (happend (happend hname (hblank gap hgap)) hopen) (hmarks ')' (by simp))

/-- A call has each of its arguments in it, behind a parenthesis. -/
theorem Written.sublist {name text arg : List Char} {args : List (List Char)}
    (h : Written name args text) (harg : arg ∈ args) : ('(' :: arg).Sublist text := by
  obtain ⟨gap, pieces, -, hpad⟩ := h
  have hinner : arg.Sublist ([','].intercalate pieces) := by
    induction hpad with
    | nil => simp at harg
    | @cons first piece args pieces hpad hmore ih =>
      obtain ⟨left, right, -, -, rfl⟩ := hpad
      have hfirst : first.Sublist (left ++ first ++ right) :=
        (List.sublist_append_right left first).trans (List.sublist_append_left _ right)
      cases hp : pieces with
      | nil =>
        subst hp
        rw [List.forall₂_nil_right_iff.1 hmore] at harg
        obtain rfl : arg = first := by simpa using harg
        simp
      | cons next more =>
        rw [intercalate_cons _ (by simp), ← hp]
        rcases List.mem_cons.1 harg with rfl | harg
        · exact hfirst.trans (List.sublist_append_left _ _)
        · exact ((ih harg).cons ',').trans (List.sublist_append_right _ _)
  rw [List.append_assoc]
  exact ((hinner.trans (List.sublist_append_left _ _)).cons_cons '(').trans
    (List.sublist_append_right _ _)

/-- A call is longer than each of its arguments. -/
theorem Written.length_lt {name text arg : List Char} {args : List (List Char)}
    (h : Written name args text) (harg : arg ∈ args) : arg.length < text.length :=
  (h.sublist harg).length_le

theorem Written.head {name text : List Char} {args : List (List Char)} (h : Written name args text)
    (hname : IsName name) : ∃ c ∈ text.head?, isWordChar c = true := by
  obtain ⟨gap, pieces, -, -⟩ := h
  obtain ⟨c, hc, hs⟩ := hname.start
  refine ⟨c, ?_, isWordChar_of_isNameChar (isNameChar_of_isNameStart hs)⟩
  simp [List.head?_append, Option.mem_def.1 hc]

/-- A call of arguments can be an argument. -/
theorem Written.isArg {name text : List Char} {args : List (List Char)}
    (h : Written name args text) (hname : IsName name) (hargs : ∀ arg ∈ args, IsArg arg)
    (hne : args ≠ []) : IsArg text := by
  obtain ⟨inner, hcall, -⟩ := h.isCall hname hargs hne
  refine ⟨?_, hcall.trimmed⟩
  obtain ⟨gap, pieces, hgap, hpieces⟩ := h
  have hfront : Closed (name ++ gap) := by
    refine Closed.append (closed_of_not_isMark fun c hc => ?_) (closed_of_blank hgap)
    exact isMark_of_isWordChar (isWordChar_of_isNameChar (hname.chars c hc))
  have hinner := nest_intercalate (closed_of_padded hpieces hargs) 0
  rw [Closed, List.append_assoc, List.cons_append, nest_append, hfront, Option.bind_some, nest_cons]
  simp [nestStep, nest_append, hinner]

theorem intercalate_comma_blank (arg : List Char) (args : List (List Char)) :
    ", ".toList.intercalate (arg :: args) = [','].intercalate (arg :: args.map (' ' :: ·)) := by
  induction args generalizing arg with
  | nil => rfl
  | cons next args ih =>
    rw [List.map_cons, intercalate_cons arg (by simp),
      List.intercalate_cons_of_ne_nil (by simp), ih]
    cases args with
    | nil => simp
    | cons => simp [List.intercalate_cons_cons]

theorem padded_comma_blank (arg : List Char) (args : List (List Char)) :
    List.Forall₂ Padded (arg :: args) (arg :: args.map (' ' :: ·)) := by
  refine List.Forall₂.cons ⟨[], [], rfl, rfl, by simp⟩ ?_
  rw [List.forall₂_map_right_iff]
  exact List.forall₂_same.2 fun arg _ => ⟨[' '], [], rfl, rfl, by simp⟩

/-- A call with a blank after each comma is a call as it may be written. -/
theorem written_call (name : String) (arg : List Char) (args : List (List Char)) :
    Written name.toList (arg :: args) (call name (arg :: args)) := by
  have h := @Written.intro name.toList (arg :: args) [] _ rfl (padded_comma_blank arg args)
  rw [call, intercalate_comma_blank]
  simpa using h

end AskSql.Sql
