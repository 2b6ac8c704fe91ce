import BoxBinning.Binning.Probe
import BoxBinning.Binning.Recipe
import BoxBinning.Bins.Contiguity
import BoxBinning.JsonValue
import BoxBinning.Proofs.Binary64.Order
import BoxBinning.Proofs.Binary64.Special
import BoxBinning.Proofs.Boxes
import BoxBinning.Proofs.Row
import BoxBinning.Proofs.MixedRadix
import BoxBinning.Proofs.UniformAxis
import BoxBinning.Proofs.Partition
import BoxBinning.Proofs.Columns
import BoxBinning.Proofs.Order
import BoxBinning.Proofs.Refusal
import BoxBinning.Proofs.Unique
import BoxBinning.Proofs.Canonical
import BoxBinning.Proofs.Projection
import BoxBinning.Proofs.Binning.Build
import BoxBinning.Proofs.Binning.WellFormed
import BoxBinning.Proofs.Binning.Labels
import BoxBinning.Proofs.Combinations
import BoxBinning.Proofs.Lookup
import BoxBinning.Proofs.Binning.Lookups
import BoxBinning.Proofs.Binning.Containment
import BoxBinning.Proofs.Binning.Product
import BoxBinning.Proofs.Binning.Words
import BoxBinning.Proofs.Binning.Formula
import BoxBinning.Proofs.Binning.Grid
import BoxBinning.Proofs.Binning.Nesting
import BoxBinning.Proofs.Binning.Policy
import BoxBinning.Proofs.Binning.Projection
import BoxBinning.Proofs.Selection
import BoxBinning.Proofs.Binning.Rejection
import BoxBinning.Proofs.Binning.Range
import BoxBinning.Proofs.Contiguity
import BoxBinning.Proofs.Overlap
import BoxBinning.Proofs.Ascending
import BoxBinning.Proofs.EdgesAlong
import BoxBinning.Proofs.Grouping
import BoxBinning.Proofs.Binning.Ascending
import BoxBinning.Proofs.Binning.Factors
import BoxBinning.Proofs.Comparison
import BoxBinning.Proofs.StagedProjection
import BoxBinning.Proofs.Binary64.Amount
import BoxBinning.Proofs.Binary64.Arithmetic
import BoxBinning.Proofs.JoinedEdges
import BoxBinning.Proofs.LinearEdges
import BoxBinning.Proofs.Strides
import BoxBinning.Proofs.Walk
import BoxBinning.Proofs.JsonForm
import BoxBinning.Proofs.Binary64.Middle
import BoxBinning.Proofs.Binning.Centers
