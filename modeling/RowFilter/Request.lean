import RowFilter.Expr.Evaluation
import RowFilter.Text.LetterCase

/-!
# Requests

A request carries what one execution of a filter adds to it: the values of paths that do not refer
to rows, and which page of rows is wanted in which order.
-/

namespace RowFilter

inductive SortOrder where
  | ascending | descending
deriving DecidableEq, Repr

/-- The order of two things when the order of one key is applied. -/
def SortOrder.apply (order : SortOrder) (ordering : Ordering) : Ordering :=
  match order with
  | ascending => ordering
  | descending => ordering.swap

/-- A key turns an order into an order. -/
theorem SortOrder.transCmp_apply {α : Type} {cmp : α → α → Ordering} [Std.TransCmp cmp]
    (order : SortOrder) : Std.TransCmp fun a b => order.apply (cmp a b) := by
  cases order with
  | ascending => exact (inferInstance : Std.TransCmp cmp)
  | descending =>
    have hswap : (fun a b => (cmp a b).swap) = fun a b => cmp b a := by
      funext a b
      exact Std.OrientedCmp.eq_swap.symm
    exact hswap ▸ Std.TransCmp.opposite

theorem SortOrder.apply_swap (order : SortOrder) (ordering : Ordering) :
    order.apply ordering.swap = (order.apply ordering).swap := by
  cases order <;> rfl

structure SortKey where
  property : String
  order : SortOrder
deriving DecidableEq, Repr

/-- Reads an attribute name, with a colon and `asc` or `desc` in any ASCII case after it or
without. -/
def SortKey.parse? (text : String) : Option SortKey := do
  let (property, order) ←
    match Text.cutAt ':' text with
    | none => some (text, SortOrder.ascending)
    | some (property, order) =>
      if Text.sameIgnoringCase order "asc" then some (property, SortOrder.ascending)
      else if Text.sameIgnoringCase order "desc" then some (property, SortOrder.descending)
      else none
  if property.isEmpty then none else return ⟨property, order⟩

structure Request where
  resolver : Option Resolver := none
  start : Nat := 0
  /-- The greatest number of rows. -/
  count : Option Nat := none
  sorting : List SortKey := []
  /-- The attributes to fetch; none means all. -/
  attributes : List String := []
  /-- What the clock shows while the request is executed, in seconds since the start of 1970. -/
  now : Int64 := 0

namespace Request

def environment (request : Request) : Environment :=
  ⟨request.resolver.getD Resolver.empty, request.now⟩

def evaluate (request : Request) (expr : Expr) : Except EvalError Value :=
  expr.evaluate request.environment

/-- The same request, executed when the clock shows a time. -/
def atTime (request : Request) (clock : Int64) : Request :=
  { request with now := clock }

/-- The same request with another resolver. -/
def rebind (request : Request) (resolver : Resolver) : Request :=
  { request with resolver := some resolver }

end Request

end RowFilter
