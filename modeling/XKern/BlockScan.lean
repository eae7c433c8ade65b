import Mathlib.Data.List.Basic

namespace XKern.BlockScan

open List

/-!
# Scans over blocks

A scan takes blocks one after the other, puts out a block for each and hands a
value on to the next one, as the modes of operation of a block cipher do.
-/

variable {Link In Out : Type}

/-- The blocks that are put out, and the value after the last one. -/
def scan (step : Link → In → Out × Link) : Link → List In → List Out × Link
  | link, [] => ([], link)
  | link, block :: blocks =>
      let first := step link block
      let later := scan step first.2 blocks
      (first.1 :: later.1, later.2)

theorem length_scan (step : Link → In → Out × Link) (link : Link) (blocks : List In) :
    (scan step link blocks).1.length = blocks.length := by
  induction blocks generalizing link with
  | nil => rfl
  | cons block blocks ih =>
    rw [scan, length_cons, ih, length_cons]

theorem scan_concat (step : Link → In → Out × Link) (link : Link) (blocks : List In) (block : In) :
    (scan step link (blocks ++ [block])).1 =
      (scan step link blocks).1 ++ [(step (scan step link blocks).2 block).1] := by
  induction blocks generalizing link with
  | nil => rfl
  | cons first blocks ih =>
    rw [cons_append, scan, ih, scan, cons_append]

theorem scan_undo {step : Link → In → Out × Link} {undo : Link → Out → In × Link}
    (undoes : ∀ link block, undo link (step link block).1 = (block, (step link block).2))
    (link : Link) (blocks : List In) :
    scan undo link (scan step link blocks).1 = (blocks, (scan step link blocks).2) := by
  induction blocks generalizing link with
  | nil => rfl
  | cons block blocks ih =>
    rw [scan, scan, undoes, ih]

end XKern.BlockScan
