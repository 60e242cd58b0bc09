import ShapeCheck.Json.Route
import ShapeCheck.Validator.Assertion
import ShapeCheck.Validator.Rules
import ShapeCheck.Validator.Schema
import ShapeCheck.Validator.Shown
import ShapeCheck.Proofs.Lookup
import ShapeCheck.Proofs.Verdict
import ShapeCheck.Proofs.Acceptance
import ShapeCheck.Proofs.Visit
import ShapeCheck.Proofs.Content
import ShapeCheck.Proofs.Identity
import ShapeCheck.Proofs.Traversal
import ShapeCheck.Proofs.Meaning
import ShapeCheck.Proofs.Rejection
import ShapeCheck.Proofs.Refusal
import ShapeCheck.Proofs.Exact
import ShapeCheck.Proofs.Presentation
import ShapeCheck.Proofs.Routes
import ShapeCheck.Proofs.Mandatory
import ShapeCheck.Proofs.Loosening
import ShapeCheck.Proofs.Openness
import ShapeCheck.Proofs.Equivalence
import ShapeCheck.Proofs.Flattening
import ShapeCheck.Proofs.Growth
import ShapeCheck.Proofs.RepeatedKeys
import ShapeCheck.Proofs.Uniform
import ShapeCheck.Proofs.Intersection
import ShapeCheck.Proofs.Integers
import ShapeCheck.Proofs.ReadData
import ShapeCheck.Proofs.Transparency
import ShapeCheck.Proofs.Decimals
import ShapeCheck.Proofs.NumberText
import ShapeCheck.Proofs.Numerals
import ShapeCheck.Proofs.IntegerKeys
import ShapeCheck.Proofs.Nearest
import ShapeCheck.Proofs.IntegerValues
import ShapeCheck.Proofs.ScalarKeys
import ShapeCheck.Proofs.Legible
import ShapeCheck.Proofs.ShownValues
