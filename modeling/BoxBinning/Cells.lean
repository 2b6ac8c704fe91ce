import BoxBinning.Extent

/-!
# Searching successive cells

The cells of a row ascend, so the one that holds a number is found by halving: `Cells.search`
compares the number with the cell in the middle and goes on in the half that is left.
-/

namespace BoxBinning.Cells

/-- The cell that holds `v` among those from `lo` up to, not including, `hi`. -/
def bisect (cells : Array Extent) (v : Float) (lo hi : Nat) : Option Nat :=
  if lo < hi then
    match cells[(lo + hi) / 2]? with
    | some cell =>
      if cell.high ≤ v then bisect cells v ((lo + hi) / 2 + 1) hi
      else if v < cell.low then bisect cells v lo ((lo + hi) / 2)
      else some ((lo + hi) / 2)
    | none => none
  else none
termination_by hi - lo

/-- The cell that holds `v`; there is none below the first cell or from the end of the last one
on. -/
def search (cells : Array Extent) (v : Float) : Option Nat :=
  match cells[0]?, cells.back? with
  | some first, some last =>
    if v < first.low || last.high ≤ v then none else bisect cells v 0 cells.size
  | _, _ => none

end BoxBinning.Cells
