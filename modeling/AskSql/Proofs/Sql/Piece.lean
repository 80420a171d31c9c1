import AskSql.Proofs.Idiom.Names
import AskSql.Proofs.RowLimit.Absent
import AskSql.Proofs.Sql.Strings
import AskSql.Sql.Statement

/-! What translation makes of a statement, piece by piece.  The pieces are names, values and the
fixed text between them.  Translation writes out the clock keywords in the names and does no more,
and the string literals in the values stay as they are.  Pieces with fixed text between them make a
piece again. -/

namespace AskSql.Sql

open Text Idiom RowLimit

variable {dialect : Dialect} {names names' strings strings' : List String}
  {text text' front back sep : List Char}

/-- `text` with its clock keywords written out. -/
def writtenOut (dialect : Dialect) (text : List Char) : List Char :=
  rewriteClocks (renderClock dialect) text

/-- The date rules leave `text` alone, wherever it stands. -/
structure Stable (dialect : Dialect) (text : List Char) : Prop where
  clocks : Rewrites (rewriteClockAt? (renderClock dialect)) text text
  calls : ∀ operand, Rewrites (rewriteCallAt? (render dialect operand)) text text
  calm : Calm text

theorem Stable.append (hf : Stable dialect front) (hb : Stable dialect back)
    (hjoin : Joins front back) : Stable dialect (front ++ back) where
  clocks := hf.clocks.append hb.clocks hjoin
  calls operand := (hf.calls operand).append (hb.calls operand) hjoin
  calm := hf.calm.append hb.calm

theorem stable_of_quiet (hquiet : Quiet text) (hcalm : Calm text) : Stable dialect text where
  clocks := hquiet _ (selective_rewriteClockAt? _)
  calls _ := hquiet _ (selective_rewriteCallAt? _)
  calm := hcalm

/-- A text whose clock keywords have been written out is rewritten to itself. -/
theorem Stable.rewrite_eq (h : Stable dialect text) : Idiom.rewrite dialect text = text := by
  have hclocks := h.clocks.rewriteWords_eq
  have hcalls := (h.calls (operandText dialect
    (rewriteWithin dialect (8 * text.length + 63)))).rewriteWords_eq
  rw [Idiom.rewrite, depthFor, rewriteWithin, rewriteClocks, hclocks, rewriteCalls, hcalls]
  exact h.calm.rewriteIntervals_eq _

/-! ### Pieces -/

/-- A part of a statement with the names that stand in it and the contents of its string literals.
Only a name with a clock keyword makes it change. -/
structure Piece (dialect : Dialect) (names strings : List String) (text : List Char) : Prop where
  clocks : Rewrites (rewriteClockAt? (renderClock dialect)) text (writtenOut dialect text)
  stable : Stable dialect (writtenOut dialect text)
  reads : Reads text strings
  idle : (∀ name ∈ names, hasClock name.toList = false) → writtenOut dialect text = text
  count_le : (writtenOut dialect text).count '_' ≤ text.count '_'
  count_lt : (∃ name ∈ names, hasClock name.toList = true) →
    (writtenOut dialect text).count '_' < text.count '_'

theorem writtenOut_append (hf : Piece dialect names strings front)
    (hb : Piece dialect names' strings' back) (hjoin : Joins front back) :
    writtenOut dialect (front ++ back) = writtenOut dialect front ++ writtenOut dialect back :=
  (hf.clocks.append hb.clocks hjoin).rewriteWords_eq

/-- Two pieces that may stand side by side, before they are written out and after. -/
theorem Piece.append (hf : Piece dialect names strings front)
    (hb : Piece dialect names' strings' back) (hjoin : Joins front back)
    (hnew : Joins (writtenOut dialect front) (writtenOut dialect back))
    (hparted : Parted front back) :
    Piece dialect (names ++ names') (strings ++ strings') (front ++ back) := by
  have hout := writtenOut_append hf hb hjoin
  have hcount := hf.count_le
  have hcount' := hb.count_le
  refine ⟨hout ▸ hf.clocks.append hb.clocks hjoin, hout ▸ hf.stable.append hb.stable hnew,
    hf.reads.append hb.reads hparted, fun hidle => ?_, ?_, fun hbusy => ?_⟩
  · rw [hout, hf.idle fun name hname => hidle name (List.mem_append_left _ hname),
      hb.idle fun name hname => hidle name (List.mem_append_right _ hname)]
  · rw [hout, List.count_append, List.count_append]
    omega
  · rw [hout, List.count_append, List.count_append]
    obtain ⟨name, hname, hclock⟩ := hbusy
    rcases List.mem_append.1 hname with hname | hname
    · have hlt := hf.count_lt ⟨name, hname, hclock⟩
      omega
    · have hlt := hb.count_lt ⟨name, hname, hclock⟩
      omega

theorem writtenOut_of_quiet (hquiet : Quiet text) : writtenOut dialect text = text :=
  (hquiet _ (selective_rewriteClockAt? _)).rewriteWords_eq

/-- A text that the date rules leave alone is a piece without names. -/
theorem piece_of_quiet (hquiet : Quiet text) (hcalm : Calm text) (hreads : Reads text strings) :
    Piece dialect [] strings text := by
  have hout : writtenOut dialect text = text := writtenOut_of_quiet hquiet
  have hstable : Stable dialect text := stable_of_quiet hquiet hcalm
  exact ⟨by rw [hout]; exact hstable.clocks, by rwa [hout], hreads, fun _ => hout,
    by rw [hout], by simp⟩

/-! ### Fixed text -/

/-- Text that is the same in every statement. -/
structure Fixed (text : List Char) : Prop where
  quiet : Quiet text
  calm : Calm text
  quotes : '\'' ∉ text

theorem Fixed.piece (h : Fixed text) : Piece dialect [] [] text :=
  piece_of_quiet h.quiet h.calm (reads_of_not_mem h.quotes)

/-- Fixed text that any piece may follow. -/
structure Front (text : List Char) : Prop extends Fixed text where
  last : ∃ c ∈ text.getLast?, isWordChar c = false ∧ isAnchored (some c) = true

/-- Fixed text that may follow any piece. -/
structure Back (text : List Char) : Prop extends Fixed text where
  head : ∃ c ∈ text.head?, isWordChar c = false
  opening : ∃ c ∈ (trimStart text).head?, c ≠ '('

/-- Whether a text has no word of a date rule, no interval and no literal. -/
def isFixed (text : List Char) : Bool :=
  isQuiet text && isCalmFrom false text && !text.contains '\''

theorem fixed_of_isFixed (h : isFixed text = true) : Fixed text := by
  simp only [isFixed, Bool.and_eq_true, Bool.not_eq_true', List.contains_eq_mem,
    decide_eq_false_iff_not] at h
  obtain ⟨⟨hquiet, hsigns⟩, hquotes⟩ := h
  refine ⟨quiet_of_isQuiet hquiet, ⟨hsigns, insideLiteral_of_not_mem fun c hc => ?_⟩, hquotes⟩
  rw [beq_eq_false_iff_ne]
  rintro rfl
  exact hquotes hc

/-- Whether a text is fixed and any piece may follow it. -/
def isFront (text : List Char) : Bool :=
  isFixed text && text.getLast?.any fun c => !isWordChar c && isAnchored (some c)

/-- Whether a text is fixed and may follow any piece. -/
def isBack (text : List Char) : Bool :=
  isFixed text && text.head?.any (!isWordChar ·) && (trimStart text).head?.any (· != '(')

/-- Whether a text is fixed and may stand between any two pieces. -/
def isSeparator (text : List Char) : Bool :=
  isFront text && isBack text

theorem front_of_isFront (h : isFront text = true) : Front text := by
  simp only [isFront, Bool.and_eq_true, Option.any_eq_true, Bool.not_eq_true'] at h
  exact ⟨fixed_of_isFixed h.1, h.2⟩

theorem back_of_isBack (h : isBack text = true) : Back text := by
  simp only [isBack, Bool.and_eq_true, Option.any_eq_true, Bool.not_eq_true', bne_iff_ne] at h
  exact ⟨fixed_of_isFixed h.1.1, h.1.2, h.2⟩

theorem front_of_isSeparator (h : isSeparator text = true) : Front text :=
  front_of_isFront (Bool.and_eq_true_iff.1 h).1

theorem back_of_isSeparator (h : isSeparator text = true) : Back text :=
  back_of_isBack (Bool.and_eq_true_iff.1 h).2

theorem Front.joins (h : Front front) (back : List Char) : Joins front back :=
  joins_of_last h.last

theorem Front.writtenOut_append (h : Front front) (hb : Piece dialect names strings back) :
    writtenOut dialect (front ++ back) = front ++ writtenOut dialect back := by
  rw [Sql.writtenOut_append h.toFixed.piece hb (h.joins back), writtenOut_of_quiet h.quiet]

theorem Piece.after (h : Piece dialect names strings text) (hfront : Front front) :
    Piece dialect names strings (front ++ text) :=
  hfront.toFixed.piece.append h (hfront.joins _)
    (by rw [writtenOut_of_quiet hfront.quiet]; exact hfront.joins _)
    fun _ hlast => absurd (List.mem_of_getLast? hlast) hfront.quotes

theorem Back.joins (h : Back sep) (front rest : List Char) : Joins front (sep ++ rest) := by
  obtain ⟨c, hc, hword⟩ := h.head
  obtain ⟨d, hd, hne⟩ := h.opening
  refine joins_of_head ⟨c, by rw [List.head?_append, Option.mem_def.1 hc]; rfl, hword⟩ ⟨d, ?_, hne⟩
  rw [trimStart_append_of_head (Option.mem_def.1 hd), List.head?_append, Option.mem_def.1 hd]
  rfl

theorem Back.parted (h : Back sep) (front rest : List Char) : Parted front (sep ++ rest) := by
  intro hhead
  obtain ⟨c, hc, -⟩ := h.head
  rw [List.head?_append, Option.mem_def.1 hc, Option.some_or] at hhead
  obtain rfl : c = '\'' := Option.some.inj hhead
  exact absurd (List.mem_of_head? hc) h.quotes

theorem writtenOut_between (hf : Piece dialect names strings front)
    (hb : Piece dialect names' strings' back) (hsep : isSeparator sep = true) :
    writtenOut dialect (front ++ (sep ++ back)) =
      writtenOut dialect front ++ (sep ++ writtenOut dialect back) := by
  have hfront := front_of_isSeparator hsep
  rw [writtenOut_append hf (hb.after hfront) ((back_of_isSeparator hsep).joins _ _),
    hfront.writtenOut_append hb]

theorem Piece.between (hf : Piece dialect names strings front)
    (hb : Piece dialect names' strings' back) (hsep : isSeparator sep = true) :
    Piece dialect (names ++ names') (strings ++ strings') (front ++ (sep ++ back)) := by
  have hfront := front_of_isSeparator hsep
  have hback := back_of_isSeparator hsep
  refine hf.append (hb.after hfront) (hback.joins _ _) ?_ (hback.parted _ _)
  rw [hfront.writtenOut_append hb]
  exact hback.joins _ _

theorem Piece.before (h : Piece dialect names strings text) (hback : Back back) :
    Piece dialect names strings (text ++ back) := by
  have hjoin : ∀ front, Joins front back := fun front => by
    have hjoin := hback.joins front []
    rwa [List.append_nil] at hjoin
  have hparted := hback.parted text []
  rw [List.append_nil] at hparted
  have happend := h.append hback.toFixed.piece (hjoin _)
    (by rw [writtenOut_of_quiet hback.quiet]; exact hjoin _) hparted
  rwa [List.append_nil, List.append_nil] at happend

theorem Back.writtenOut_append (h : Back back) (hf : Piece dialect names strings front) :
    writtenOut dialect (front ++ back) = writtenOut dialect front ++ back := by
  have hjoin := h.joins front []
  rw [List.append_nil] at hjoin
  rw [Sql.writtenOut_append hf h.toFixed.piece hjoin, writtenOut_of_quiet h.quiet]

/-! ### Pieces that end with no limit -/

/-- A piece that has no row limit at its end, where the dialect would move it from there. -/
structure Item (dialect : Dialect) (names strings : List String) (text : List Char) : Prop
    extends Piece dialect names strings text where
  unlimited : usesTop dialect = true → Unlimited (writtenOut dialect text)

/-- An item without literals that begins with no row limit either. -/
structure Shown (dialect : Dialect) (names : List String) (text : List Char) : Prop
    extends Item dialect names [] text where
  untopped : Untopped (writtenOut dialect text)

theorem Item.after (h : Item dialect names strings text) (hfront : Front front)
    (hguards : usesTop dialect = true → Guards front) :
    Item dialect names strings (front ++ text) where
  toPiece := h.toPiece.after hfront
  unlimited htop := by
    rw [hfront.writtenOut_append h.toPiece]
    exact (h.unlimited htop).prepend (hguards htop) []

theorem Item.between (hf : Piece dialect names strings front)
    (hb : Item dialect names' strings' back) (hsep : isSeparator sep = true)
    (hguards : usesTop dialect = true → Guards sep) :
    Item dialect (names ++ names') (strings ++ strings') (front ++ (sep ++ back)) where
  toPiece := hf.between hb.toPiece hsep
  unlimited htop := by
    rw [writtenOut_between hf hb.toPiece hsep]
    exact (hb.unlimited htop).prepend (hguards htop) _

theorem Piece.item_before (h : Piece dialect names strings text) (hback : Back back)
    (hlast : ∃ c ∈ back.getLast?, isBlank c = false ∧ c ≠ ';' ∧ isDecimalDigit c = false) :
    Item dialect names strings (text ++ back) where
  toPiece := h.before hback
  unlimited _ := by
    obtain ⟨c, hc, hlast⟩ := hlast
    rw [hback.writtenOut_append h]
    exact unlimited_of_last
      ⟨c, by rw [List.getLast?_append, Option.mem_def.1 hc]; rfl, hlast⟩

/-! ### Lists -/

section
variable {α : Type} {items : List α} {texts : List String} {itemNames itemStrings : α → List String}
  {between : String}

/-- Items behind an item, with a separator between them, are one item. -/
theorem Item.cons {text : String} (hitem : Item dialect names strings text.toList)
    (h : List.Forall₂ (fun item text =>
      Item dialect (itemNames item) (itemStrings item) text.toList) items texts)
    (hsep : isSeparator between.toList = true) (hguards : Guards between.toList) :
    Item dialect (names ++ items.flatMap itemNames) (strings ++ items.flatMap itemStrings)
      (between.intercalate (text :: texts)).toList := by
  induction h generalizing names strings text with
  | nil => simpa using hitem
  | cons hnext _ ih =>
    have hboth := Item.between hitem.toPiece (ih hnext) hsep fun _ => hguards
    rwa [String.intercalate_cons_cons, String.toList_append, String.toList_append,
      List.append_assoc]

/-- Items with a separator between them are one item. -/
theorem Item.list (h : List.Forall₂ (fun item text =>
      Item dialect (itemNames item) (itemStrings item) text.toList) items texts)
    (hne : items ≠ []) (hsep : isSeparator between.toList = true)
      (hguards : Guards between.toList) :
    Item dialect (items.flatMap itemNames) (items.flatMap itemStrings)
      (between.intercalate texts).toList := by
  cases h with
  | nil => contradiction
  | cons hitem hmore => exact hitem.cons hmore hsep hguards

/-- A list begins as its first item does. -/
theorem Shown.list (h : List.Forall₂ (fun item text => Shown dialect (itemNames item) text.toList)
      items texts)
    (hne : items ≠ []) (hsep : isSeparator between.toList = true) (hguards : Guards between.toList)
    (hstop : isStop between.toList = true) :
    Shown dialect (items.flatMap itemNames) (between.intercalate texts).toList := by
  have hitems : List.Forall₂ (fun item text => Item dialect (itemNames item) [] text.toList)
      items texts := h.imp fun _ _ hshown => hshown.toItem
  have hlist := @Item.list dialect α _ _ itemNames (fun _ => []) between hitems hne hsep hguards
  have hnil : items.flatMap (fun _ => ([] : List String)) = [] := by simp
  rw [hnil] at hlist
  refine ⟨hlist, ?_⟩
  cases h with
  | nil => contradiction
  | cons hfirst hmore =>
    cases hmore with
    | nil => simpa using hfirst.untopped
    | cons hnext hrest =>
      cases hitems with
      | cons _ hitems =>
        have hback := Item.list hitems (by simp) hsep hguards
        rw [String.intercalate_cons_cons, String.toList_append, String.toList_append,
          List.append_assoc, writtenOut_between hfirst.toPiece hback.toPiece hsep]
        exact hfirst.untopped.append hstop _

end

end AskSql.Sql
