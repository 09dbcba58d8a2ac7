import TidyTree.View.Frame

set_option autoImplicit false
set_option relaxedAutoImplicit false

namespace TidyTree.View

variable {σ α : Type} [Scalar α]

def toggled (v : View σ α) (id : NodeId) (now : Duration) : View σ α :=
  match v.toggle id now with
  | .ok (_, v') => v'
  | .error _ => v

def obey (v : View σ α) (now : Duration) : Intent α → View σ α
  | .toggle id => v.toggled id now
  | .openTooltip id position => v.openTooltip id position
  | .closeTooltip => v.closeTooltip
  | .pan dx dy => v.adjust (·.pan dx dy)
  | .zoom anchor factor => v.adjust (·.zoom anchor factor)
  | .resize size => v.resize size now

/-- Deal with an event. A detached view does nothing. -/
def handle [PowTwo α] (v : View σ α) (event : Event α) (now : Duration) :
    View σ α × List (Intent α) :=
  if v.isDetached then (v, [])
  else
    let (pointer, intents) := v.pointer.handle (v.regions now) event
    (intents.foldl (fun v intent => v.obey now intent) { v with pointer }, intents)

end TidyTree.View
