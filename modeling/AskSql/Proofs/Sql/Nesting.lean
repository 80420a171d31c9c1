import AskSql.Sql.Call
import AskSql.Sql.Identifier
import AskSql.Proofs.Text.Words

/-! Texts that are closed: their quotes and brackets end inside them, their parentheses balance, and
no comma stands outside parentheses.  The scans over a call pass over closed texts, so closed texts
between commas and parentheses are read back as the arguments of the call. -/

namespace AskSql.Sql

open Text

/-- One step of a scan over an argument, which keeps the region and the number of open parentheses.
It fails on a parenthesis that closes none and on a comma outside parentheses. -/
def nestStep (state : Region × Nat) (c : Char) : Option (Region × Nat) :=
  match state with
  | (.code, depth) =>
    if c = ')' then (if depth = 0 then none else some (.code, depth - 1))
    else if c = '(' then some (.code, depth + 1)
    else if c = ',' ∧ depth = 0 then none
    else some (Region.code.next c, depth)
  | (region, depth) => some (region.next c, depth)

/-- A scan over an argument. -/
def nest (state : Region × Nat) (text : List Char) : Option (Region × Nat) :=
  text.foldlM nestStep state

/-- `text` ends outside quotes, brackets and parentheses, and has no comma outside them. -/
def Closed (text : List Char) : Prop :=
  nest (.code, 0) text = some (.code, 0)

instance (text : List Char) : Decidable (Closed text) :=
  inferInstanceAs (Decidable (_ = _))

variable {region region' : Region} {depth depth' : Nat} {text rest : List Char}

@[simp] theorem nest_nil (state : Region × Nat) : nest state [] = some state := rfl

@[simp] theorem nest_cons (state : Region × Nat) (c : Char) (text : List Char) :
    nest state (c :: text) = (nestStep state c).bind (nest · text) := rfl

theorem nest_append (state : Region × Nat) (front back : List Char) :
    nest state (front ++ back) = (nest state front).bind (nest · back) :=
  List.foldlM_append

theorem Closed.append {front back : List Char} (hf : Closed front) (hb : Closed back) :
    Closed (front ++ back) := by
  rw [Closed, nest_append, hf]
  exact hb

theorem nestStep_deeper {c : Char} (k : Nat)
    (h : nestStep (region, depth) c = some (region', depth')) :
    nestStep (region, depth + k) c = some (region', depth' + k) := by
  cases region with
  | code => simp only [nestStep] at h ⊢; grind
  | quoted quote => simpa [nestStep] using h
  | bracketed => simpa [nestStep] using h

/-- Parentheses opened before a scan do not change it. -/
theorem nest_deeper (k : Nat) (h : nest (region, depth) text = some (region', depth')) :
    nest (region, depth + k) text = some (region', depth' + k) := by
  induction text generalizing region depth with
  | nil => simp_all
  | cons c text ih =>
    rw [nest_cons, Option.bind_eq_some_iff] at h ⊢
    obtain ⟨⟨middle, between⟩, hstep, hrest⟩ := h
    exact ⟨(middle, between + k), nestStep_deeper k hstep, ih hrest⟩

theorem Closed.nest_eq (h : Closed text) (depth : Nat) :
    nest (.code, depth) text = some (.code, depth) := by
  simpa using nest_deeper depth h

/-! ### The scans over a call -/

theorem closeCallFrom_cons {c : Char} (h : nestStep (region, depth) c = some (region', depth'))
    (rest : List Char) :
    closeCallFrom region depth (c :: rest) =
      (closeCallFrom region' depth' rest).map fun (inner, rest) => (c :: inner, rest) := by
  cases region with
  | code =>
    simp only [nestStep] at h
    split at h
    · rename_i hc
      cases depth with
      | zero => simp at h
      | succ depth =>
        obtain ⟨rfl, rfl⟩ : .code = region' ∧ depth = depth' := by simpa using h
        simp [closeCallFrom, hc]
    · rename_i hclose
      split at h
      · rename_i hc
        obtain ⟨rfl, rfl⟩ : .code = region' ∧ depth + 1 = depth' := by simpa using h
        simp [closeCallFrom, hc, Region.next, Region.isQuote]
      · rename_i hopen
        split at h
        · simp at h
        · obtain ⟨rfl, rfl⟩ : Region.code.next c = region' ∧ depth = depth' := by simpa using h
          simp [closeCallFrom, hclose, hopen]
  | quoted quote | bracketed =>
    simp only [nestStep, Option.some.injEq, Prod.mk.injEq] at h
    obtain ⟨rfl, rfl⟩ := h
    simp [closeCallFrom]

/-- The search for the end of a call passes over what closes the parentheses that it opens. -/
theorem closeCallFrom_append (h : nest (region, depth) text = some (region', depth'))
    (rest : List Char) :
    closeCallFrom region depth (text ++ rest) =
      (closeCallFrom region' depth' rest).map fun (inner, rest) => (text ++ inner, rest) := by
  induction text generalizing region depth with
  | nil =>
    obtain ⟨rfl, rfl⟩ : region = region' ∧ depth = depth' := by simpa using h
    simp
  | cons c text ih =>
    rw [nest_cons, Option.bind_eq_some_iff] at h
    obtain ⟨⟨middle, between⟩, hstep, hrest⟩ := h
    rw [List.cons_append, closeCallFrom_cons hstep, ih hrest, Option.map_map]
    rfl

theorem splitArgsFrom_cons {c : Char} (h : nestStep (region, depth) c = some (region', depth'))
    (piece rest : List Char) :
    splitArgsFrom region depth piece (c :: rest) =
      splitArgsFrom region' depth' (c :: piece) rest := by
  cases region with
  | code =>
    simp only [nestStep] at h
    split at h
    · rename_i hc
      cases depth with
      | zero => simp at h
      | succ depth =>
        obtain ⟨rfl, rfl⟩ : .code = region' ∧ depth = depth' := by simpa using h
        have hnesting : Region.code.nesting c = -1 := by rw [hc]; rfl
        have hback : ((depth + 1 : Nat) : Int) + -1 = depth := by omega
        rw [splitArgsFrom, if_neg (by simp [hc]), hnesting, hback, hc]
        rfl
    · rename_i hclose
      split at h
      · rename_i hc
        obtain ⟨rfl, rfl⟩ : .code = region' ∧ depth + 1 = depth' := by simpa using h
        simp [splitArgsFrom, hc, Region.next, Region.isQuote, Region.nesting]
      · rename_i hopen
        split at h
        · simp at h
        · rename_i hcomma
          obtain ⟨rfl, rfl⟩ : Region.code.next c = region' ∧ depth = depth' := by simpa using h
          rw [splitArgsFrom, if_neg (by grind)]
          simp [Region.nesting, hclose, hopen]
  | quoted quote | bracketed =>
    simp only [nestStep, Option.some.injEq, Prod.mk.injEq] at h
    obtain ⟨rfl, rfl⟩ := h
    simp [splitArgsFrom, Region.nesting]

/-- The search for the next comma passes over what closes the parentheses that it opens. -/
theorem splitArgsFrom_append (h : nest (region, depth) text = some (region', depth'))
    (piece rest : List Char) :
    splitArgsFrom region depth piece (text ++ rest) =
      splitArgsFrom region' depth' (text.reverse ++ piece) rest := by
  induction text generalizing region depth piece with
  | nil =>
    obtain ⟨rfl, rfl⟩ : region = region' ∧ depth = depth' := by simpa using h
    simp
  | cons c text ih =>
    rw [nest_cons, Option.bind_eq_some_iff] at h
    obtain ⟨⟨middle, between⟩, hstep, hrest⟩ := h
    rw [List.cons_append, splitArgsFrom_cons hstep, ih hrest]
    simp

/-! ### Arguments between commas -/

/-- What is written twice inside of quotes are the quotes alone. -/
theorem doubled_of_not_mem {x : Char} {cs : List Char} (h : x ∉ cs) : doubled x cs = cs := by
  induction cs with
  | nil => rfl
  | cons c cs ih =>
    have hc : c ≠ x := by
      rintro rfl
      simp at h
    have hrest := ih fun hmem => h (List.mem_cons_of_mem c hmem)
    rw [doubled, List.flatMap_cons, if_neg hc, ← doubled, hrest]
    rfl

theorem intercalate_cons (piece : List Char) {pieces : List (List Char)} (h : pieces ≠ []) :
    [','].intercalate (piece :: pieces) = piece ++ ',' :: [','].intercalate pieces := by
  rw [List.intercalate_cons_of_ne_nil h]
  simp

/-- Below a parenthesis a comma is a character like any other. -/
theorem nest_intercalate {pieces : List (List Char)} (h : ∀ piece ∈ pieces, Closed piece)
    (depth : Nat) :
    nest (.code, depth + 1) ([','].intercalate pieces) = some (.code, depth + 1) := by
  induction pieces with
  | nil => rfl
  | cons piece pieces ih =>
    have hpiece := (h piece (by simp)).nest_eq (depth + 1)
    cases hp : pieces with
    | nil => simpa using hpiece
    | cons next more =>
      have hmore := ih fun x hx => h x (List.mem_cons_of_mem _ hx)
      rw [intercalate_cons piece (by simp), nest_append, hpiece, ← hp]
      simpa [nestStep, Region.next, Region.isQuote] using hmore

theorem closeCall_intercalate {pieces : List (List Char)} (h : ∀ piece ∈ pieces, Closed piece)
    (rest : List Char) :
    closeCall ([','].intercalate pieces ++ ')' :: rest) =
      some ([','].intercalate pieces, rest) := by
  rw [closeCall]
  induction pieces with
  | nil => simp [closeCallFrom]
  | cons piece pieces ih =>
    have hpiece : Closed piece := h piece (by simp)
    cases hp : pieces with
    | nil =>
      simp only [List.intercalate_singleton]
      rw [closeCallFrom_append hpiece]
      simp [closeCallFrom]
    | cons next more =>
      have hmore := ih fun x hx => h x (List.mem_cons_of_mem _ hx)
      rw [intercalate_cons piece (by simp), List.append_assoc, closeCallFrom_append hpiece, ← hp]
      simp [closeCallFrom, Region.next, Region.isQuote, hmore]

theorem splitArgsFrom_intercalate {pieces : List (List Char)} (hne : pieces ≠ [])
    (h : ∀ piece ∈ pieces, Closed piece) :
    splitArgsFrom .code 0 [] ([','].intercalate pieces) = pieces.map trim := by
  induction pieces with
  | nil => contradiction
  | cons piece pieces ih =>
    have hpiece := splitArgsFrom_append (h piece (by simp)) []
    cases hp : pieces with
    | nil =>
      have hlast := hpiece []
      simp only [List.append_nil] at hlast
      simpa [splitArgsFrom] using hlast
    | cons next more =>
      have hmore := ih (by simp [hp]) fun x hx => h x (List.mem_cons_of_mem _ hx)
      rw [intercalate_cons piece (by simp), ← hp]
      have hfirst := hpiece (',' :: [','].intercalate pieces)
      simp only [Int.natCast_zero] at hfirst
      rw [hfirst, splitArgsFrom]
      simp [hmore]

end AskSql.Sql
