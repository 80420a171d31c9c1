import Mathlib.Data.List.Forall2
import AskSql.Proofs.Sql.QuotedName

/-! Where the scans over calls cut a text.  Forwards a scan ends at a parenthesis or at a comma
outside quotes; backwards it ends where an operand begins.  Either way both sides of the cut can be
read, and the quoted names on them are those of the text. -/

namespace AskSql.Sql

open Text Idiom

variable {text inner rest : List Char} {names : List QuotedName} {name : QuotedName} {depth : Nat}

/-! ### Forwards -/

/-- `token` opens a region, stays in it and closes it. -/
def Enclosed (token : List Char) : Prop :=
  ∃ region opening content closing, token = opening :: content ++ [closing] ∧ region ≠ Region.code ∧
    Region.code.next opening = region ∧ (∀ c ∈ content, region.next c = region) ∧
      region.next closing = .code

theorem enclosed_quoted {content : List Char} (hcontent : '\'' ∉ content) :
    Enclosed (quoted content) := by
  refine ⟨.quoted '\'', '\'', content, '\'', rfl, by decide, by decide, fun c hc => ?_, by decide⟩
  have hne : c ≠ '\'' := by
    rintro rfl
    exact hcontent hc
  rw [Region.next, if_neg hne]

theorem Harmless.enclosed (h : Harmless name) : Enclosed name.text := by
  obtain ⟨opening, content, closing⟩ := name
  have hclosing : ∀ c ∈ content, c ≠ closing := by
    rintro c hc rfl
    exact h.closing hc
  have hkind := h.kind
  simp only [List.mem_cons, Prod.mk.injEq, List.not_mem_nil, or_false] at hkind
  rcases hkind with ⟨rfl, rfl⟩ | ⟨rfl, rfl⟩ | ⟨rfl, rfl⟩
  · exact ⟨.bracketed, '[', content, ']', rfl, by decide, by decide,
      fun c hc => by rw [Region.next, if_neg (hclosing c hc)], by decide⟩
  · exact ⟨.quoted '"', '"', content, '"', rfl, by decide, by decide,
      fun c hc => by rw [Region.next, if_neg (hclosing c hc)], by decide⟩
  · exact ⟨.quoted '`', '`', content, '`', rfl, by decide, by decide,
      fun c hc => by rw [Region.next, if_neg (hclosing c hc)], by decide⟩

/-- What opens a region is neither a comma nor a parenthesis. -/
theorem not_mem_of_next {c : Char} (h : Region.code.next c ≠ .code) : c ∉ ['(', ')', ','] := by
  intro hc
  have hall : ∀ c ∈ ['(', ')', ','], Region.code.next c = .code := by decide
  exact h (hall c hc)

theorem next_of_isBare {c : Char} (h : isBare c = true) : Region.code.next c = .code := by
  simp only [isBare, opensName, Bool.and_eq_true, Bool.not_eq_true', Bool.or_eq_false_iff,
    bne_iff_ne, beq_eq_false_iff_ne] at h
  simp [Region.next, Region.isQuote, h]

theorem closeCallFrom_inside {region : Region} {c : Char} (hregion : region ≠ .code)
    (text : List Char) :
    closeCallFrom region depth (c :: text) =
      (closeCallFrom (region.next c) depth text).map fun (inner, rest) => (c :: inner, rest) := by
  simp [closeCallFrom, hregion]

/-- The search for the end of a call passes over what is enclosed. -/
theorem closeCallFrom_enclosed {token : List Char} (h : Enclosed token) (text : List Char) :
    closeCallFrom .code depth (token ++ text) =
      (closeCallFrom .code depth text).map fun read => (token ++ read.1, read.2) := by
  obtain ⟨region, opening, content, closing, rfl, hregion, hopening, hcontent, hclosing⟩ := h
  have hinside : closeCallFrom region depth (content ++ closing :: text) =
      (closeCallFrom .code depth text).map
        fun read => (content ++ closing :: read.1, read.2) := by
    induction content with
    | nil => simp [closeCallFrom_inside hregion, hclosing]
    | cons c content ih =>
      rw [List.cons_append, closeCallFrom_inside hregion, hcontent c (by simp),
        ih fun d hd => hcontent d (List.mem_cons_of_mem c hd), Option.map_map]
      rfl
  have hmarks := not_mem_of_next (hopening ▸ hregion)
  simp only [List.mem_cons, List.not_mem_nil, or_false, not_or] at hmarks
  have hopen : closeCallFrom .code depth (opening :: (content ++ closing :: text)) =
      (closeCallFrom region depth (content ++ closing :: text)).map
        fun read => (opening :: read.1, read.2) := by
    simp [closeCallFrom, hmarks, hopening]
  have hsplit : (opening :: content ++ [closing]) ++ text =
      opening :: (content ++ closing :: text) := by simp
  rw [hsplit, hopen, hinside, Option.map_map]
  congr 1
  funext read
  simp

/-- The end of a call cuts no name. -/
theorem NamesIn.closeCallFrom (h : NamesIn text names)
    (hclose : closeCallFrom .code depth text = some (inner, rest)) :
    ∃ before after, NamesIn inner before ∧ NamesIn rest after ∧ names = before ++ after := by
  induction h generalizing depth inner with
  | nil => contradiction
  | @bare c text names hc h ih =>
    have hmore : ∀ {depth}, (Sql.closeCallFrom .code depth text).map
        (fun read => (c :: read.1, read.2)) = some (inner, rest) →
        ∃ before after, NamesIn inner before ∧ NamesIn rest after ∧ names = before ++ after := by
      intro depth hmap
      obtain ⟨⟨taken, left⟩, htaken, heq⟩ := Option.map_eq_some_iff.1 hmap
      obtain ⟨rfl, rfl⟩ := Prod.mk.inj heq
      obtain ⟨before, after, hbefore, hafter, hnames⟩ := ih htaken
      exact ⟨before, after, hbefore.bare hc, hafter, hnames⟩
    unfold Sql.closeCallFrom at hclose
    rw [next_of_isBare hc] at hclose
    split at hclose
    · cases depth with
      | zero =>
        obtain ⟨rfl, rfl⟩ := Prod.mk.inj (Option.some.inj hclose)
        exact ⟨[], names, .nil, h, rfl⟩
      | succ depth => exact hmore hclose
    · exact hmore hclose
  | literal hcontent _ ih =>
    rw [closeCallFrom_enclosed (enclosed_quoted hcontent), Option.map_eq_some_iff] at hclose
    obtain ⟨⟨taken, left⟩, htaken, heq⟩ := hclose
    obtain ⟨rfl, rfl⟩ := Prod.mk.inj heq
    obtain ⟨before, after, hbefore, hafter, hnames⟩ := ih htaken
    exact ⟨before, after, hbefore.literal hcontent, hafter, hnames⟩
  | @name name text names hname _ ih =>
    rw [closeCallFrom_enclosed hname.enclosed, Option.map_eq_some_iff] at hclose
    obtain ⟨⟨taken, left⟩, htaken, heq⟩ := hclose
    obtain ⟨rfl, rfl⟩ := Prod.mk.inj heq
    obtain ⟨before, after, hbefore, hafter, rfl⟩ := ih htaken
    exact ⟨name :: before, after, hbefore.name hname, hafter, rfl⟩

theorem splitArgsFrom_inside {region : Region} {c : Char} (hregion : region ≠ .code) (depth : Int)
    (piece text : List Char) :
    splitArgsFrom region depth piece (c :: text) =
      splitArgsFrom (region.next c) depth (c :: piece) text := by
  cases region with
  | code => contradiction
  | quoted | bracketed => simp [splitArgsFrom, Region.nesting]

/-- The search for the next comma passes over what is enclosed. -/
theorem splitArgsFrom_enclosed {token : List Char} (h : Enclosed token) (depth : Int)
    (piece text : List Char) :
    splitArgsFrom .code depth piece (token ++ text) =
      splitArgsFrom .code depth (token.reverse ++ piece) text := by
  obtain ⟨region, opening, content, closing, rfl, hregion, hopening, hcontent, hclosing⟩ := h
  have hinside : ∀ piece, splitArgsFrom region depth piece (content ++ closing :: text) =
      splitArgsFrom .code depth (closing :: content.reverse ++ piece) text := by
    induction content with
    | nil =>
      intro piece
      simp [splitArgsFrom_inside hregion, hclosing]
    | cons c content ih =>
      intro piece
      rw [List.cons_append, splitArgsFrom_inside hregion, hcontent c (by simp),
        ih fun d hd => hcontent d (List.mem_cons_of_mem c hd)]
      simp
  have hmarks := not_mem_of_next (hopening ▸ hregion)
  simp only [List.mem_cons, List.not_mem_nil, or_false, not_or] at hmarks
  have hopen : splitArgsFrom .code depth piece (opening :: (content ++ closing :: text)) =
      splitArgsFrom region depth (opening :: piece) (content ++ closing :: text) := by
    simp [splitArgsFrom, Region.nesting, hmarks, hopening]
  have hsplit : (opening :: content ++ [closing]) ++ text =
      opening :: (content ++ closing :: text) := by simp
  rw [hsplit, hopen, hinside]
  simp

/-- Each argument of a call can be read, and none of its names is lost. -/
theorem NamesIn.splitArgsFrom {piece : List Char} {before : List QuotedName} {depth : Int}
    (h : NamesIn text names) (hpiece : NamesIn piece.reverse before) :
    ∃ parts, List.Forall₂ NamesIn (splitArgsFrom .code depth piece text) parts ∧
      parts.flatten = before ++ names := by
  induction h generalizing piece before depth with
  | nil => exact ⟨[before], .cons hpiece.trim .nil, rfl⟩
  | @bare c text names hc h ih =>
    rw [Sql.splitArgsFrom, next_of_isBare hc]
    split
    · obtain ⟨parts, hparts, hnames⟩ := @ih [] [] 0 .nil
      refine ⟨before :: parts, .cons hpiece.trim hparts, ?_⟩
      rw [List.flatten_cons, hnames, List.nil_append]
    · have hmore : NamesIn (c :: piece).reverse before := by
        simpa using hpiece.append (NamesIn.nil.bare hc)
      exact ih hmore
  | @literal content text names hcontent _ ih =>
    rw [splitArgsFrom_enclosed (enclosed_quoted hcontent)]
    have hmore : NamesIn ((quoted content).reverse ++ piece).reverse before := by
      simpa using hpiece.append (NamesIn.nil.literal hcontent)
    exact ih hmore
  | @name name text names hname _ ih =>
    rw [splitArgsFrom_enclosed hname.enclosed]
    have hmore : NamesIn (name.text.reverse ++ piece).reverse (before ++ [name]) := by
      simpa using hpiece.append (NamesIn.nil.name hname)
    obtain ⟨parts, hparts, hnames⟩ := @ih _ _ depth hmore
    exact ⟨parts, hparts, by simpa using hnames⟩

theorem NamesIn.splitArgs (h : NamesIn inner names) :
    ∃ parts, List.Forall₂ NamesIn (splitArgs inner) parts ∧ parts.flatten = names := by
  rw [Sql.splitArgs]
  split
  · rename_i hblank
    obtain rfl := h.unique (.of_bare (bare_of_blank hblank))
    exact ⟨[], .nil, rfl⟩
  · exact @NamesIn.splitArgsFrom _ _ [] [] 0 h .nil

/-! ### Backwards -/

/-- The search for the beginning of a call passes over parentheses that match. -/
theorem openCallBefore_nested {cs : List Char} {opened : Nat} (hquotes : '\'' ∉ cs)
    (h : isNestedFrom opened cs = true) (rest : List Char) :
    openCallBefore false (depth + opened) (cs ++ rest) =
      (openCallBefore false depth rest).map fun (taken, rest) => (cs ++ taken, rest) := by
  induction cs generalizing opened with
  | nil =>
    obtain rfl : opened = 0 := by simpa [isNestedFrom] using h
    simp
  | cons c cs ih =>
    have hc : c ≠ '\'' := by
      rintro rfl
      simp at hquotes
    have hmore := fun {opened} => @ih opened fun hmem => hquotes (List.mem_cons_of_mem c hmem)
    unfold isNestedFrom at h
    split at h
    · rename_i hclose
      have hrest := hmore h
      rw [← Nat.add_assoc] at hrest
      simp [openCallBefore, hclose, hrest]
      rfl
    · rename_i hclose
      split at h
      · rename_i hopen
        cases opened with
        | zero => contradiction
        | succ opened =>
          rw [← Nat.add_assoc]
          simp [openCallBefore, hopen, hmore h]
          rfl
      · rename_i hopen
        simp [openCallBefore, hc, hclose, hopen, hmore h]
        rfl

theorem Harmless.passedOver (h : Harmless name) : PassedOver name.text := by
  have hends : ∀ kind ∈ [('[', ']'), ('"', '"'), ('`', '`')], ∀ c ∈ [kind.1, kind.2],
      c ≠ '\'' ∧ c ≠ '(' ∧ c ≠ ')' := by decide
  have hedge := hends _ h.kind
  have hopening : PassedOver [name.opening] := passedOver_of_forall fun c hc =>
    hedge c (by simp_all)
  have hclosing : PassedOver [name.closing] := passedOver_of_forall fun c hc =>
    hedge c (by simp_all)
  have hcontent : PassedOver name.content := fun depth rest =>
    @openCallBefore_nested depth _ 0 (by simpa using h.quotes) h.nested rest
  exact (hopening.append hcontent).append hclosing

/-- Induction over a text from its end. -/
@[elab_as_elim] theorem NamesIn.reverse_induction
    {motive : (text : List Char) → (names : List QuotedName) → NamesIn text names → Prop}
    (nil : motive [] [] .nil)
    (bare : ∀ {text names c} (_ : isBare c = true) (h : NamesIn text names)
      (h' : NamesIn (text ++ [c]) names), motive text names h → motive (text ++ [c]) names h')
    (literal : ∀ {text names content} (_ : '\'' ∉ content) (h : NamesIn text names)
      (h' : NamesIn (text ++ quoted content) names),
      motive text names h → motive (text ++ quoted content) names h')
    (name : ∀ {text names name} (_ : Harmless name) (h : NamesIn text names)
      (h' : NamesIn (text ++ name.text) (names ++ [name])),
      motive text names h → motive (text ++ name.text) (names ++ [name]) h')
    {text : List Char} {names : List QuotedName} (h : NamesIn text names) :
        motive text names h := by
  induction hlength : text.length using Nat.strong_induction_on generalizing text names with
  | _ n ih =>
    subst hlength
    rcases h.last_cases with rfl | ⟨front, c, rfl, hc, hf⟩ | ⟨front, content, rfl, hcontent, hf⟩ |
      ⟨front, last, before, rfl, rfl, hlast, hf⟩
    · obtain rfl := h.eq_nil (by simp)
      exact nil
    · exact bare hc hf h (ih _ (by simp) hf rfl)
    · exact literal hcontent hf h (ih _ (by simp [quoted]) hf rfl)
    · exact name hlast hf h (ih _ (by simp [QuotedName.text]) hf rfl)

/-- The beginning of a call cuts no name. -/
theorem NamesIn.openCallBefore {taken : List Char} (h : NamesIn text names)
    (hopen : openCallBefore false depth text.reverse = some (taken, rest)) :
    text = rest.reverse ++ taken.reverse ∧ ∃ before, NamesIn rest.reverse before := by
  induction h using NamesIn.reverse_induction generalizing depth taken with
  | nil => contradiction
  | @bare text names c hc h _ ih =>
    have hmore : ∀ {depth}, (Sql.openCallBefore false depth text.reverse).map
        (fun read => (c :: read.1, read.2)) = some (taken, rest) →
        text ++ [c] = rest.reverse ++ taken.reverse ∧ ∃ before, NamesIn rest.reverse before := by
      intro depth hmap
      obtain ⟨⟨read, left⟩, hread, heq⟩ := Option.map_eq_some_iff.1 hmap
      obtain ⟨rfl, rfl⟩ := Prod.mk.inj heq
      obtain ⟨rfl, hbefore⟩ := ih hread
      exact ⟨by simp, hbefore⟩
    rw [List.reverse_append, List.reverse_singleton, List.singleton_append] at hopen
    unfold Sql.openCallBefore at hopen
    rw [if_neg (ne_of_class hc (by decide)), if_neg (by decide)] at hopen
    split at hopen
    · exact hmore hopen
    · split at hopen
      · cases depth with
        | zero =>
          obtain ⟨rfl, rfl⟩ := Prod.mk.inj (Option.some.inj hopen)
          exact ⟨by simp, names, by simpa using h⟩
        | succ depth => exact hmore hopen
      · exact hmore hopen
  | literal hcontent _ _ ih =>
    rw [List.reverse_append, passedOver_quoted hcontent, Option.map_eq_some_iff] at hopen
    obtain ⟨⟨read, left⟩, hread, heq⟩ := hopen
    obtain ⟨rfl, rfl⟩ := Prod.mk.inj heq
    obtain ⟨rfl, hbefore⟩ := ih hread
    exact ⟨by simp, hbefore⟩
  | name hname _ _ ih =>
    rw [List.reverse_append, hname.passedOver, Option.map_eq_some_iff] at hopen
    obtain ⟨⟨read, left⟩, hread, heq⟩ := hopen
    obtain ⟨rfl, rfl⟩ := Prod.mk.inj heq
    obtain ⟨rfl, hbefore⟩ := ih hread
    exact ⟨by simp, hbefore⟩

theorem openQuoteBefore_append {cs : List Char} (h : '\'' ∉ cs) (rest : List Char) :
    openQuoteBefore (cs ++ rest) =
      (openQuoteBefore rest).map fun (taken, rest) => (cs ++ taken, rest) := by
  induction cs with
  | nil => simp
  | cons c cs ih =>
    have hc : c ≠ '\'' := by
      rintro rfl
      simp at h
    rw [List.cons_append, openQuoteBefore, if_neg hc,
      ih fun hmem => h (List.mem_cons_of_mem c hmem), Option.map_map]
    · rfl
    · rintro cs rfl
      contradiction

theorem openQuoteBefore_stop (h : rest.head? ≠ some '\'') :
    openQuoteBefore ('\'' :: rest) = some (['\''], rest) := by
  rw [openQuoteBefore, if_pos rfl]
  rintro cs - rfl
  simp at h

/-- The beginning of a literal cuts no name, and no literal joined to it by a doubled quote. -/
theorem NamesIn.openQuoteBefore {content taken : List Char} (h : NamesIn text names)
    (hcontent : '\'' ∉ content)
    (hopen : openQuoteBefore (content.reverse ++ '\'' :: text.reverse) = some (taken, rest)) :
    text ++ '\'' :: content = rest.reverse ++ taken.reverse ∧
      ∃ before, NamesIn rest.reverse before := by
  have hfound : ∀ {text names content taken}, NamesIn text names →
      text.reverse.head? ≠ some '\'' → '\'' ∉ content →
      Sql.openQuoteBefore (content.reverse ++ '\'' :: text.reverse) = some (taken, rest) →
      text ++ '\'' :: content = rest.reverse ++ taken.reverse ∧
        ∃ before, NamesIn rest.reverse before := by
    intro text names content taken htext hhead hcontent hopen
    rw [openQuoteBefore_append (by simpa using hcontent), openQuoteBefore_stop hhead] at hopen
    obtain ⟨rfl, rfl⟩ := Prod.mk.inj (Option.some.inj hopen)
    exact ⟨by simp, names, by simpa using htext⟩
  induction h using NamesIn.reverse_induction generalizing content taken with
  | nil => exact hfound .nil (by simp) hcontent hopen
  | bare hc _ h _ =>
    refine hfound h ?_ hcontent hopen
    simpa using ne_of_class hc (by decide)
  | name hname _ h _ =>
    refine hfound h ?_ hcontent hopen
    have hquote : ∀ kind ∈ [('[', ']'), ('"', '"'), ('`', '`')], kind.2 ≠ '\'' := by decide
    simpa [QuotedName.text] using hquote _ hname.kind
  | @literal text names last hlast h _ ih =>
    -- The opening quote of one literal and the closing quote of the one before it are a doubled
    -- quote.
    have hdoubled : Sql.openQuoteBefore (content.reverse ++ '\'' :: (text ++ quoted last).reverse) =
        (Sql.openQuoteBefore (last.reverse ++ '\'' :: text.reverse)).map
          fun (taken, rest) => (content.reverse ++ '\'' :: '\'' :: taken, rest) := by
      have hreverse : (text ++ quoted last).reverse =
          '\'' :: (last.reverse ++ '\'' :: text.reverse) := by
        simp [quoted]
      rw [openQuoteBefore_append (by simpa using hcontent), hreverse, Sql.openQuoteBefore,
        Option.map_map]
      rfl
    rw [hdoubled, Option.map_eq_some_iff] at hopen
    obtain ⟨⟨read, left⟩, hread, heq⟩ := hopen
    obtain ⟨rfl, rfl⟩ := Prod.mk.inj heq
    obtain ⟨htext, hbefore⟩ := ih hlast hread
    refine ⟨?_, hbefore⟩
    simp only [List.reverse_append, List.reverse_cons, List.reverse_reverse, quoted,
      List.append_assoc, List.cons_append, List.nil_append] at htext ⊢
    rw [← List.append_assoc, ← htext]
    simp

theorem upTo_append {x : Char} {cs : List Char} (h : x ∉ cs) (rest : List Char) :
    upTo x (cs ++ x :: rest) = some (cs ++ [x], rest) := by
  induction cs with
  | nil => simp [upTo]
  | cons c cs ih =>
    have hc : c ≠ x := by
      rintro rfl
      simp at h
    rw [List.cons_append, upTo, if_neg hc, ih fun hmem => h (List.mem_cons_of_mem c hmem)]
    rfl

theorem bare_of_isOperandChar {cs : List Char} :
    ∀ c ∈ (cs.takeWhile isOperandChar).reverse, isBare c = true := by
  intro c hc
  have hoperand : isOperandChar c = true := List.mem_takeWhile_imp (List.mem_reverse.1 hc)
  exact isBare_of_not_mem (by decide) hoperand

/-- A quoted name is an operand, whatever comes before it. -/
theorem Harmless.operandBackwards_eq (h : Harmless name) (rest : List Char) :
    operandBackwards (name.text.reverse ++ rest) = some (name.text.reverse, rest) := by
  obtain ⟨opening, content, closing⟩ := name
  have hreverse : (QuotedName.text ⟨opening, content, closing⟩).reverse ++ rest =
      closing :: (content.reverse ++ opening :: rest) := by
    simp [QuotedName.text]
  have hup := @upTo_append opening content.reverse (by simpa using h.opening) rest
  have hback : operandBackwards (closing :: (content.reverse ++ opening :: rest)) =
      (upTo opening (content.reverse ++ opening :: rest)).map
        fun (taken, rest) => (closing :: taken, rest) := by
    have hkind := h.kind
    simp only [List.mem_cons, Prod.mk.injEq, List.not_mem_nil, or_false] at hkind
    rcases hkind with ⟨rfl, rfl⟩ | ⟨rfl, rfl⟩ | ⟨rfl, rfl⟩ <;> simp [operandBackwards]
  rw [hreverse, hback, hup]
  simp [QuotedName.text]

/-- An operand that is read backwards begins between names. -/
theorem NamesIn.operandBackwards {taken : List Char} (h : NamesIn text names)
    (hoperand : operandBackwards text.reverse = some (taken, rest)) :
    text = rest.reverse ++ taken.reverse ∧ ∃ before, NamesIn rest.reverse before := by
  have hplain : ∀ {cs : List Char} {before : List QuotedName}, NamesIn cs.reverse before →
      NamesIn (cs.dropWhile isOperandChar).reverse before := by
    intro cs before hcs
    rw [← @List.takeWhile_append_dropWhile _ isOperandChar cs, List.reverse_append] at hcs
    exact hcs.take bare_of_isOperandChar
  rcases h.last_cases with rfl | ⟨front, c, rfl, hc, hf⟩ | ⟨front, content, rfl, hcontent, hf⟩ |
    ⟨front, name, before, rfl, rfl, hname, hf⟩
  · contradiction
  · rw [List.reverse_append, List.reverse_singleton, List.singleton_append] at hoperand
    have hne : ∀ x, isBare x = false → c ≠ x := fun x hx => ne_of_class hc hx
    rw [Sql.operandBackwards] at hoperand
    rw [if_neg (hne '\'' (by decide)), if_neg (hne ']' (by decide)),
      if_neg (not_or.2 ⟨hne '`' (by decide), hne '"' (by decide)⟩)] at hoperand
    split at hoperand
    · cases hopen : Sql.openCallBefore false 0 front.reverse with
      | none =>
        rw [hopen] at hoperand
        contradiction
      | some found =>
        obtain ⟨read, left⟩ := found
        rw [hopen] at hoperand
        obtain ⟨rfl, rfl⟩ := Prod.mk.inj (Option.some.inj hoperand)
        obtain ⟨rfl, before, hbefore⟩ := hf.openCallBefore hopen
        refine ⟨?_, before, hplain hbefore⟩
        have hleft := congrArg List.reverse (@List.takeWhile_append_dropWhile _ isOperandChar left)
        rw [List.reverse_append] at hleft
        simp [← hleft]
    · split at hoperand
      · obtain ⟨rfl, rfl⟩ := Prod.mk.inj (Option.some.inj hoperand)
        refine ⟨?_, names, hplain (by simpa using h)⟩
        rw [← List.reverse_append, List.takeWhile_append_dropWhile]
        simp
      · contradiction
  · have hreverse : (front ++ quoted content).reverse =
        '\'' :: (content.reverse ++ '\'' :: front.reverse) := by
      simp [quoted]
    rw [hreverse, Sql.operandBackwards, if_neg (by decide), if_pos rfl,
      Option.map_eq_some_iff] at hoperand
    obtain ⟨⟨read, left⟩, hread, heq⟩ := hoperand
    obtain ⟨rfl, rfl⟩ := Prod.mk.inj heq
    obtain ⟨htext, hbefore⟩ := hf.openQuoteBefore hcontent hread
    refine ⟨?_, hbefore⟩
    rw [List.reverse_cons, ← List.append_assoc, ← htext]
    simp [quoted]
  · rw [List.reverse_append, hname.operandBackwards_eq] at hoperand
    obtain ⟨rfl, rfl⟩ := Prod.mk.inj (Option.some.inj hoperand)
    exact ⟨by simp, before, by simpa using hf⟩

/-- Both sides of the beginning of an operand can be read, and white space follows the operand. -/
theorem NamesIn.operandBefore {operand start : List Char} (h : NamesIn text names)
    (hoperand : operandBefore text.reverse = some (operand, start)) :
    ∃ gap before after, text = start.reverse ++ (operand ++ gap) ∧ NamesIn start.reverse before ∧
      NamesIn operand after ∧ names = before ++ after := by
  have hsplit := congrArg List.reverse
    (@List.takeWhile_append_dropWhile _ isAsciiBlank text.reverse)
  rw [List.reverse_append, List.reverse_reverse] at hsplit
  have hbare : ∀ c ∈ (text.reverse.takeWhile isAsciiBlank).reverse, isBare c = true := fun c hc =>
    isBare_of_isBlank (isBlank_of_isAsciiBlank (List.mem_takeWhile_imp (List.mem_reverse.1 hc)))
  have hfront := (hsplit.symm ▸ h).take hbare
  rw [Sql.operandBefore] at hoperand
  split at hoperand
  · rename_i taken rest hback
    obtain ⟨rfl, rfl⟩ := Prod.mk.inj (Option.some.inj hoperand)
    rw [← List.reverse_reverse (text.reverse.dropWhile isAsciiBlank)] at hback
    obtain ⟨htext, before, hbefore⟩ := hfront.operandBackwards hback
    rw [htext] at hfront hsplit
    obtain ⟨after, rfl, hafter⟩ := hbefore.of_append hfront
    exact ⟨_, before, after, by rw [← List.append_assoc]; exact hsplit.symm, hbefore, hafter, rfl⟩
  · contradiction

end AskSql.Sql
