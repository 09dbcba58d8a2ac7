set_option autoImplicit false
set_option relaxedAutoImplicit false

namespace TidyTree

/-- A label above any number of subtrees in order. -/
inductive Rose (ν : Type) where
  | mk (label : ν) (children : List (Rose ν))

namespace Rose

variable {ν μ : Type}

def label : Rose ν → ν
  | mk label _ => label

def children : Rose ν → List (Rose ν)
  | mk _ children => children

mutual

def preorder : Rose ν → List ν
  | mk label children => label :: preorderAll children

def preorderAll : List (Rose ν) → List ν
  | [] => []
  | r :: rs => r.preorder ++ preorderAll rs

end

mutual

def map (f : ν → μ) : Rose ν → Rose μ
  | mk label children => mk (f label) (mapAll f children)

def mapAll (f : ν → μ) : List (Rose ν) → List (Rose μ)
  | [] => []
  | r :: rs => r.map f :: mapAll f rs

end

mutual

/-- Change every label in pre-order by a step that carries a state along. -/
def mapState {σ : Type} (f : ν → σ → μ × σ) : Rose ν → σ → Rose μ × σ
  | mk label children, s =>
    let (label, s) := f label s
    let (children, s) := mapStateAll f children s
    (mk label children, s)

def mapStateAll {σ : Type} (f : ν → σ → μ × σ) : List (Rose ν) → σ → List (Rose μ) × σ
  | [], s => ([], s)
  | r :: rs, s =>
    let (r, s) := r.mapState f s
    let (rs, s) := mapStateAll f rs s
    (r :: rs, s)

end

end Rose

end TidyTree
