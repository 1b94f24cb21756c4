namespace Destack

def distinct {α : Type} [DecidableEq α] (items : List α) : List α :=
  items.foldl (fun seen a => if a ∈ seen then seen else seen ++ [a]) []

end Destack
