import BoxBinning.Error

/-!
# Mixed-radix bin indices

A grid of `n₀ × n₁ × …` cells numbers its cells with the first axis varying fastest: the cell with
digits `d₀, d₁, …` has the index `d₀ · s₀ + d₁ · s₁ + …`, where the *stride* `sₖ` is the product of
the counts before `nₖ`. `MixedRadix.strides` computes the strides and the number of cells,
`MixedRadix.encode` an index from its digits and `MixedRadix.decode` the digits from an index.

Indices are 32-bit words. The largest one is kept to say that there is no bin, so a binning has
fewer than `binLimit` bins; `strides` refuses counts whose product reaches that limit, which keeps
every sum in `encode` below it.
-/

namespace BoxBinning

/-- The index of a bin in its binning. -/
abbrev BinIndex := UInt32

/-- The index that says that there is no bin. -/
def noBinIndex : BinIndex := 4294967295

/-- Every binning has fewer bins than this. -/
def binLimit : Nat := 4294967295

/-- The count that stands for one too large to compute. -/
def uncountable : Nat := 18446744073709551615

/-- A number of bins is accepted when it is positive and below the limit. -/
def requireBinCount (count : Nat) : Except BinningError Unit :=
  if count = 0 then .error (.tooFewEdges 1)
  else if count < binLimit then .ok ()
  else .error (.tooManyBins count)

namespace MixedRadix

/-- The strides of the counts, of which the first is `total`, and the product of `total` and the
counts. -/
def stridesFrom (total : Nat) : List Nat → Except BinningError (List BinIndex × Nat)
  | [] => .ok ([], total)
  | n :: rest =>
    if total * n < binLimit then do
      let (strides, cells) ← stridesFrom (total * n) rest
      return (UInt32.ofNat total :: strides, cells)
    else .error (.tooManyBins uncountable)

/-- The strides of the counts and their product. -/
def strides (counts : List Nat) : Except BinningError (List BinIndex × Nat) := stridesFrom 1 counts

/-- The index of the cell with the given digits. -/
def encode (strides digits : List BinIndex) : BinIndex :=
  (List.zipWith (· * ·) digits strides).foldl (· + ·) 0

/-- The digits of the cell with the given index. -/
def decode (counts : List Nat) (strides : List BinIndex) (index : Nat) : List Nat :=
  List.zipWith (fun n s => index / s.toNat % n) counts strides

end MixedRadix

end BoxBinning
