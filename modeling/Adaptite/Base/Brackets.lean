import Mathlib.Tactic.Common

set_option autoImplicit false

namespace Brackets

inductive Bracket (α : Type) where
  | opened (a : α)
  | closed (a : α)

variable {α : Type} [DecidableEq α]

def next (stack : List α) : Bracket α → Option (List α)
  | .opened a => some (a :: stack)
  | .closed a =>
    match stack with
    | [] => none
    | b :: rest => if a = b then some rest else none

def unclosed : List α → List (Bracket α) → Option (List α)
  | stack, [] => some stack
  | stack, b :: word => (next stack b).bind fun rest => unclosed rest word

theorem unclosed_append (stack : List α) (u v : List (Bracket α)) :
    unclosed stack (u ++ v) = (unclosed stack u).bind fun rest => unclosed rest v := by
  induction u generalizing stack with
  | nil => rfl
  | cons b u ih =>
    simp only [List.cons_append, unclosed]
    cases next stack b with
    | none => rfl
    | some rest => exact ih rest

theorem unclosed_concat {stack rest : List α} {word : List (Bracket α)}
    (h : unclosed stack word = some rest) (b : Bracket α) :
    unclosed stack (word ++ [b]) = next rest b := by
  rw [unclosed_append, h, Option.bind_some]
  exact Option.bind_fun_some _

@[simp] theorem next_closed (stack : List α) (a : α) :
    next (a :: stack) (.closed a) = some stack := if_pos rfl

end Brackets
