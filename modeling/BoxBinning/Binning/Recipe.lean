import BoxBinning.Binning.Build

/-!
# Recipes for binnings

A `Recipe` says how a binning is put together from the ways of building one, each with its policy,
and `Recipe.build` carries it out. What holds of every binning that can be built is stated over
recipes. `Recipe.under` gives all steps of a recipe one policy, so that a strict and a permissive
binning can be compared that differ in nothing else.
-/

namespace BoxBinning

/-- How a binning is put together. -/
inductive Recipe where
  /-- A row of equally wide bins. -/
  | linear (policy : InputPolicy) (start stop : Float) (count : Nat) (label : String)
  /-- A grid of equally wide bins. -/
  | grid (policy : InputPolicy) (ranges : List Binning.AxisRange) (labels : List String)
  /-- A row of bins that are equally wide in the logarithm. -/
  | logarithmic (policy : InputPolicy) (base : LogBase) (start stop : Float) (count : Nat)
      (label : String)
  /-- The bins between successive edges. -/
  | edges (policy : InputPolicy) (sequence : List Float) (label : String)
  /-- Any boxes, found through their columns. -/
  | bins (policy : InputPolicy) (boxes : List Bin) (labels : List String)
  /-- Any boxes, tried one after the other. -/
  | scan (policy : InputPolicy) (boxes : List Bin) (labels : List String)
  /-- All combinations of the bins of other recipes. -/
  | product (policy : InputPolicy) (parts : List Recipe)
  /-- Another recipe's binning with other labels. -/
  | labelled (recipe : Recipe) (labels : List String)

namespace Recipe

mutual

/-- The binning that a recipe describes. -/
def build : Recipe → Except BinningError Binning
  | linear policy start stop count label => Binning.ofLinear policy start stop count label
  | grid policy ranges labels => Binning.ofGrid policy ranges labels
  | logarithmic policy base start stop count label =>
    Binning.ofLogarithmic policy base start stop count label
  | edges policy sequence label => Binning.ofEdges policy sequence label
  | bins policy boxes labels => Binning.ofBins policy boxes labels
  | scan policy boxes labels => Binning.ofBinsByScan policy boxes labels
  | product policy parts => do Binning.ofParts policy (← buildAll parts)
  | labelled recipe labels => do return (← build recipe).withLabels labels

/-- The binnings that several recipes describe. -/
def buildAll : List Recipe → Except BinningError (List Binning)
  | [] => .ok []
  | recipe :: rest => do return (← build recipe) :: (← buildAll rest)

end

mutual

/-- The same recipe with one policy in all its steps. -/
def under (policy : InputPolicy) : Recipe → Recipe
  | linear _ start stop count label => linear policy start stop count label
  | grid _ ranges labels => grid policy ranges labels
  | logarithmic _ base start stop count label => logarithmic policy base start stop count label
  | edges _ sequence label => edges policy sequence label
  | bins _ boxes labels => bins policy boxes labels
  | scan _ boxes labels => scan policy boxes labels
  | product _ parts => product policy (underAll policy parts)
  | labelled recipe labels => labelled (under policy recipe) labels

/-- The same recipes with one policy in all their steps. -/
def underAll (policy : InputPolicy) : List Recipe → List Recipe
  | [] => []
  | recipe :: rest => under policy recipe :: underAll policy rest

end

end Recipe

end BoxBinning
