import PointerAnalysis.Registry

/-! Contexts: bounded histories under which methods and objects are told apart, the most recent
element first. -/
namespace PointerAnalysis

/-- A history of calls or receiver objects, most recent first. -/
abbrev Context (E : Type) := List E

namespace Context

variable {E : Type}

/-- Puts an element in front and keeps the `k` most recent ones (`push_limited`). -/
def push (k : Nat) (e : E) (c : Context E) : Context E := (e :: c).take k

/-- The `k` most recent elements (`truncated`). -/
def truncate (k : Nat) (c : Context E) : Context E := c.take k

/-- Whether a context is short enough to be its own truncation. -/
def fits (k : Nat) (c : Context E) : Bool := c.length ≤ k

def text (label : E → String) (c : Context E) : String :=
  "[" ++ ", ".intercalate (c.map label) ++ "]"

/-- How many contexts have been numbered. -/
def cacheSummary [Coded E] (contexts : Registry (Context E)) : String :=
  "ContextCache(" ++ toString contexts.size ++ " contexts)"

theorem length_push_le (k : Nat) (e : E) (c : Context E) : (c.push k e).length ≤ k :=
  List.length_take_le ..

theorem truncate_of_fits {k : Nat} {c : Context E} (short : c.fits k) : c.truncate k = c :=
  List.take_of_length_le (by simpa [fits] using short)

end Context

end PointerAnalysis
