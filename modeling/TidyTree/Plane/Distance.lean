import TidyTree.Plane.Point
import TidyTree.Scalar.Binary64

set_option autoImplicit false
set_option relaxedAutoImplicit false

namespace TidyTree.Point

def distance (p q : Point Float) : Float := Scalar.Binary64.hypot (q.x - p.x) (q.y - p.y)

theorem isWithin_eq_distance_le (p q : Point Float) (r : Float) :
    p.isWithin q r = decide (p.distance q ≤ r) := rfl

theorem isBeyond_eq_lt_distance (p q : Point Float) (r : Float) :
    p.isBeyond q r = decide (p.distance q > r) := rfl

end TidyTree.Point
