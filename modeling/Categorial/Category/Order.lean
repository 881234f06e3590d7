/-
  Categorial.Category.Order

  The order on categories: atoms before functions; atoms by name, feature and label; functions by
  direction, result, argument and label.
-/

import Categorial.Category.Basic

namespace Categorial

/-- Forward before backward. -/
def Direction.compare : Direction → Direction → Ordering
  | .forward, .backward => .lt
  | .backward, .forward => .gt
  | _, _ => .eq

/-- No feature before values, values before variables. -/
def Feature.compare : Feature → Feature → Ordering
  | .unspecified, .unspecified => .eq
  | .unspecified, _ => .lt
  | .value _, .unspecified => .gt
  | .value a, .value b => Ord.compare a b
  | .value _, .var _ => .lt
  | .var a, .var b => Ord.compare a b
  | .var _, _ => .gt

/-- The order on categories over an order on labels. -/
def Category.compareWith {α : Type} (labels : α → α → Ordering) :
    Category α → Category α → Ordering
  | .atom name feature l, .atom name' feature' l' =>
    (Ord.compare name name').then ((feature.compare feature').then (labels l l'))
  | .atom .., .func .. => .lt
  | .func .., .atom .. => .gt
  | .func d r a l, .func d' r' a' l' =>
    (d.compare d').then <| (r.compareWith labels r').then <|
      (a.compareWith labels a').then (labels l l')

def Plain.compare (a b : Plain) : Ordering := a.compareWith (fun _ _ => .eq) b

def Headed.compare (a b : Headed) : Ordering := a.compareWith Ord.compare b

end Categorial
