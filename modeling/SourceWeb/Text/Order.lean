/-
  The order of texts, which is that of their characters, as in a dictionary.
-/
namespace SourceWeb.Text

/-- Does the first list come before the second, where `before` tells so of their members? -/
def listPrecedes {α : Type} [DecidableEq α] (before : α → α → Bool) : List α → List α → Bool
  | _, [] => false
  | [], _ :: _ => true
  | a :: as, b :: bs => if a = b then listPrecedes before as bs else before a b

def precedes (s t : String) : Bool :=
  listPrecedes (fun c d => c.toNat < d.toNat) s.toList t.toList

end SourceWeb.Text
