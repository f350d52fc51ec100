import Stencil.Compile
import Stencil.Template.Walk
import Stencil.Proofs.Script.Operand
import Stencil.Proofs.Script.Name
import Stencil.Proofs.Optimize.Demand
import Stencil.Proofs.Optimize.Normal
import Stencil.Proofs.Constant.Evaluates
import Stencil.Proofs.Optimize.Preservation
import Stencil.Proofs.Lower.Selection
import Stencil.Proofs.Bundle.Round
import Stencil.Proofs.Files.Canonical
import Stencil.Proofs.Bundle.Closure
import Stencil.Proofs.Bundle.Linking
import Stencil.Proofs.Layout.Inlining
import Stencil.Proofs.Engine.Outline
import Stencil.Proofs.Engine.Reading
import Stencil.Proofs.Engine.Agreement
import Stencil.Proofs.Engine.Nesting
import Stencil.Proofs.Engine.Refusal
import Stencil.Proofs.Engine.Block
import Stencil.Proofs.Lower.Passing
import Stencil.Proofs.Engine.Scoping
import Stencil.Proofs.Bundle.Linked
import Stencil.Proofs.Lower.EarlyReturn
import Stencil.Proofs.Text.Spelling
import Stencil.Proofs.Engine.Embedding
import Stencil.Proofs.Engine.Literal
import Stencil.Proofs.Lower.Mirror
import Stencil.Proofs.Lower.Shape
import Stencil.Proofs.Bundle.Instances
import Stencil.Proofs.Lower.Built
import Stencil.Proofs.Lower.Respelled
import Stencil.Proofs.Layout.Agreement
import Stencil.Proofs.Bundle.Rerooted
import Stencil.Proofs.Bundle.Respelled
import Stencil.Proofs.Optimize.Guard
import Stencil.Proofs.Optimize.Received
import Stencil.Proofs.Script.Run
import Stencil.Proofs.Script.Template
import Stencil.Proofs.Script.Span
import Stencil.Proofs.Script.Source
import Stencil.Proofs.Optimize.Folding
import Stencil.Proofs.Optimize.Settling
import Stencil.Proofs.Optimize.Leaves
import Stencil.Proofs.Engine.Grouping
import Stencil.Proofs.Engine.Fitting
import Stencil.Proofs.Layout.Bodies
import Stencil.Proofs.Layout.Recursion
import Stencil.Proofs.Optimize.Rooted
import Stencil.Proofs.Lower.Mapping
import Stencil.Proofs.Constant.Coercion
import Stencil.Proofs.Constant.Narrowing
import Stencil.Proofs.Engine.Props
import Stencil.Proofs.Engine.Physical
import Stencil.Proofs.Bundle.Beside
import Stencil.Proofs.Lower.Cleaning
import Stencil.Proofs.Layout.Copy
import Stencil.Proofs.Engine.Level
import Stencil.Proofs.Engine.Restored
import Stencil.Proofs.Text.Entities
import Stencil.Proofs.Optimize.Escaping
import Stencil.Proofs.Engine.Quotation
