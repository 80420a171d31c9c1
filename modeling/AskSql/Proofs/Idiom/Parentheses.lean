import Mathlib.Algebra.Order.Group.Nat
import Mathlib.Algebra.Order.Monoid.Defs
import Mathlib.Order.Iterate

/-! Levels of parentheses, each with what is charged in it.  What is charged in one level adds up;
of the parentheses that are closed in a level only the dearest count.  So a text that stands in
parentheses twice, side by side, is paid for once. -/

namespace AskSql.Idiom

/-- What is charged in a level itself, and the greatest total of the parentheses closed in it. -/
@[ext] structure Frame where
  own : Nat
  closed : Nat

namespace Frame

variable {frame frame' : Frame}

/-- The total of the parentheses whose level `frame` is. -/
def total (frame : Frame) : Nat :=
  frame.own + frame.closed

/-- A level in which nothing but `n` is charged. -/
def charge (n : Nat) : Frame :=
  ⟨n, 0⟩

/-- A level with parentheses in it, whose total is `n`. -/
def parens (n : Nat) : Frame :=
  ⟨0, n⟩

instance : Zero Frame where
  zero := ⟨0, 0⟩

instance : Add Frame where
  add frame frame' := ⟨frame.own + frame'.own, max frame.closed frame'.closed⟩

instance : AddCommMonoid Frame where
  add_assoc _ _ _ := Frame.ext (Nat.add_assoc ..) (Nat.max_assoc ..)
  zero_add _ := Frame.ext (Nat.zero_add _) (Nat.zero_max _)
  add_zero _ := Frame.ext (Nat.add_zero _) (Nat.max_zero _)
  add_comm _ _ := Frame.ext (Nat.add_comm ..) (Nat.max_comm ..)
  nsmul := nsmulRec

@[simp] theorem own_add : (frame + frame').own = frame.own + frame'.own := rfl

@[simp] theorem closed_add : (frame + frame').closed = max frame.closed frame'.closed := rfl

/-- A level is at most another if it has charged no more itself and its total is no greater. -/
instance : PartialOrder Frame where
  le frame frame' := frame.own ≤ frame'.own ∧ frame.total ≤ frame'.total
  le_refl _ := ⟨le_rfl, le_rfl⟩
  le_trans _ _ _ h h' := ⟨h.1.trans h'.1, h.2.trans h'.2⟩
  le_antisymm frame frame' h h' := by
    have hown := le_antisymm h.1 h'.1
    have htotal := le_antisymm h.2 h'.2
    simp only [total] at htotal
    exact Frame.ext hown (by omega)

theorem le_iff : frame ≤ frame' ↔ frame.own ≤ frame'.own ∧ frame.total ≤ frame'.total := Iff.rfl

instance : IsOrderedAddMonoid Frame where
  add_le_add_left _ _ h _ := by
    simp only [le_iff, total, own_add, closed_add] at h ⊢
    omega

@[simp] theorem total_zero : (0 : Frame).total = 0 := rfl

@[simp] theorem total_charge (n : Nat) : (charge n).total = n := rfl

@[simp] theorem total_parens (n : Nat) : (parens n).total = n := Nat.zero_add n

@[simp] theorem charge_zero : charge 0 = 0 := rfl

@[simp] theorem parens_zero : parens 0 = 0 := rfl

theorem zero_le (frame : Frame) : 0 ≤ frame :=
  ⟨Nat.zero_le _, Nat.zero_le _⟩

theorem total_mono (h : frame ≤ frame') : frame.total ≤ frame'.total := h.2

theorem charge_mono {n n' : Nat} (h : n ≤ n') : charge n ≤ charge n' :=
  ⟨h, by simpa⟩

theorem parens_mono {n n' : Nat} (h : n ≤ n') : parens n ≤ parens n' :=
  ⟨le_rfl, by simpa⟩

@[simp] theorem charge_add_charge (n n' : Nat) : charge n + charge n' = charge (n + n') := rfl

@[simp] theorem total_charge_add (n : Nat) : (charge n + frame).total = n + frame.total := by
  simp only [total, charge, own_add, closed_add, Nat.zero_max]
  omega

@[simp] theorem total_add_charge (n : Nat) : (frame + charge n).total = frame.total + n := by
  rw [add_comm, total_charge_add, Nat.add_comm]

theorem total_add_le : (frame + frame').total ≤ frame.total + frame'.total := by
  simp only [total, own_add, closed_add]
  omega

theorem le_add_right : frame ≤ frame + frame' := by
  simp only [le_iff, total, own_add, closed_add]
  omega

end Frame

/-- The levels that are open, the innermost first, with empty ones behind the outermost. -/
abbrev Stack := Nat → Frame

namespace Stack

variable {stack stack' : Stack} {frame frame' : Frame}

/-- A level inside of `stack`. -/
def cons (frame : Frame) (stack : Stack) : Stack
  | 0 => frame
  | i + 1 => stack i

/-- The levels when `frame` has been found in the innermost. -/
def raise (stack : Stack) (frame : Frame) : Stack
  | 0 => stack 0 + frame
  | i + 1 => stack (i + 1)

/-- The levels when the innermost is closed. -/
def pop (stack : Stack) : Stack :=
  raise (fun i => stack (i + 1)) (.parens (stack 0).total)

@[simp] theorem raise_zero : raise stack frame 0 = stack 0 + frame := rfl

@[simp] theorem raise_nothing : raise stack 0 = stack := by
  funext i
  cases i with
  | zero => exact add_zero (stack 0)
  | succ i => rfl

@[simp] theorem raise_raise : raise (raise stack frame) frame' = raise stack (frame + frame') := by
  funext i
  cases i with
  | zero => exact add_assoc ..
  | succ i => rfl

@[simp] theorem raise_cons : raise (cons frame stack) frame' = cons (frame + frame') stack := by
  funext i
  cases i <;> rfl

@[simp] theorem pop_cons : pop (cons frame stack) = raise stack (.parens frame.total) := rfl

theorem le_raise : stack ≤ raise stack frame
  | 0 => Frame.le_add_right
  | _ + 1 => le_rfl

theorem raise_mono (h : stack ≤ stack') (hframe : frame ≤ frame') :
    raise stack frame ≤ raise stack' frame'
  | 0 => add_le_add (h 0) hframe
  | i + 1 => h (i + 1)

theorem cons_mono (h : stack ≤ stack') : cons frame stack ≤ cons frame stack'
  | 0 => le_rfl
  | i + 1 => h i

theorem pop_mono (h : stack ≤ stack') : pop stack ≤ pop stack' :=
  raise_mono (fun i => h (i + 1)) (Frame.parens_mono (Frame.total_mono (h 0)))

/-! ### Closing all levels -/

/-- Closing all levels, one after the other, comes by no greater total than `n`. -/
def Bounded (n : Nat) (stack : Stack) : Prop :=
  ∀ depth, (pop^[depth] stack 0).total ≤ n

variable {n : Nat}

theorem Bounded.anti (h : Bounded n stack') (hle : stack ≤ stack') : Bounded n stack := by
  intro depth
  exact (Frame.total_mono (Monotone.iterate (fun _ _ => pop_mono) depth hle 0)).trans (h depth)

theorem total_le_pop : (stack 0).total ≤ (pop stack 0).total := by
  have htotal : (pop stack 0).total = (stack 1).own + max (stack 1).closed (stack 0).total := rfl
  omega

theorem bounded_pop_iff : Bounded n (pop stack) ↔ Bounded n stack := by
  refine ⟨fun h depth => ?_, fun h depth => h (depth + 1)⟩
  cases depth with
  | zero => exact total_le_pop.trans (h 0)
  | succ depth => exact h depth

theorem bounded_push_iff : Bounded n (cons 0 stack) ↔ Bounded n stack := by
  rw [← bounded_pop_iff, pop_cons, Frame.total_zero, Frame.parens_zero, raise_nothing]

theorem bounded_empty : Bounded 0 (fun _ => 0) := by
  intro depth
  induction depth with
  | zero => rfl
  | succ depth ih =>
    have hpop : pop (fun _ => 0) = fun _ => 0 := raise_nothing
    rwa [Function.iterate_succ_apply, hpop]

/-- What is found in the innermost level adds its total at most. -/
theorem Bounded.raise (h : Bounded n stack) (frame : Frame) :
    Bounded (n + frame.total) (stack.raise frame) := by
  -- While levels are closed, the innermost one stays the only one to differ, and by that total.
  suffices hnear : ∀ depth (stack stack' : Stack), (∀ i, stack' (i + 1) = stack (i + 1)) →
      (stack' 0).total ≤ (stack 0).total + frame.total →
      (pop^[depth] stack' 0).total ≤ (pop^[depth] stack 0).total + frame.total by
    intro depth
    exact (hnear depth stack (stack.raise frame) (fun _ => rfl) Frame.total_add_le).trans
      (Nat.add_le_add_right (h depth) _)
  intro depth
  induction depth with
  | zero => exact fun _ _ _ htotal => htotal
  | succ depth ih =>
    intro stack stack' hrest htotal
    refine ih (pop stack) (pop stack') (fun i => hrest (i + 1)) ?_
    have hpop : ∀ stack : Stack, (pop stack 0).total =
        (stack 1).own + max (stack 1).closed (stack 0).total := fun _ => rfl
    have hone : stack' 1 = stack 1 := hrest 0
    rw [hpop, hpop, hone]
    omega

/-! ### Levels inside of levels -/

/-- The levels `frames` inside of those of `stack`. -/
def under (stack : Stack) : List Frame → Stack
  | [] => stack
  | frame :: frames => (under stack frames).cons frame

theorem exists_raise_under (frames : List Frame) (frame frame' : Frame) :
    ∃ frames' found, frames'.length = frames.length ∧ ∀ stack : Stack,
      ((stack.raise frame).under frames).raise frame' = (stack.raise found).under frames' := by
  cases frames with
  | nil => exact ⟨[], frame + frame', rfl, fun _ => raise_raise⟩
  | cons first frames => exact ⟨(first + frame') :: frames, frame, rfl, fun _ => raise_cons⟩

end Stack

end AskSql.Idiom
