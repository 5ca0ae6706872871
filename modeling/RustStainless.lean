import RustStainless.Lib.Lists
import RustStainless.Lib.Run
import RustStainless.Lib.Assoc
import RustStainless.Rust.Str
import RustStainless.Rust.BigInt
import RustStainless.Data.Ast
import RustStainless.Data.Placeholders
import RustStainless.Data.Scope
import RustStainless.Data.Eval
import RustStainless.Data.Symbols
import RustStainless.Lib.PrefixCode
import RustStainless.Data.Ser
import RustStainless.Data.Tree
import RustStainless.Data.Serialize
import RustStainless.Data.ToTree
import RustStainless.Data.OfTree
import RustStainless.Data.Decodable
import RustStainless.Rustc.Ty
import RustStainless.Rustc.Hair
import RustStainless.Rustc.Hir
import RustStainless.Rustc.Tcx
import RustStainless.Rustc.Eval
import RustStainless.Rustc.Running
import RustStainless.Extraction.State
import RustStainless.Extraction.StdItems
import RustStainless.Extraction.Flags
import RustStainless.Extraction.Ty
import RustStainless.Extraction.Adt
import RustStainless.Lib.Graded
import RustStainless.Lib.Readback
import RustStainless.Lib.Ensures
import RustStainless.Lib.Follows
import RustStainless.Lib.Requests
import RustStainless.Lib.Settled
import RustStainless.Lib.Fuel
import RustStainless.Data.Refs
import RustStainless.Data.Running
import RustStainless.Lib.SortKey
import RustStainless.Lib.TwoWay
import RustStainless.Data.Canonical
import RustStainless.Data.Headers
import RustStainless.Data.Hash
import RustStainless.Extraction.Alike
import RustStainless.Extraction.Ids
import RustStainless.Extraction.IdRuns
import RustStainless.Extraction.Mentions
import RustStainless.Extraction.AdtMoves
import RustStainless.Extraction.TyImage
import RustStainless.Extraction.GenericsImage
import RustStainless.Extraction.AdtImage
import RustStainless.Extraction.AdtReturns
import RustStainless.Extraction.AdtLoop
import RustStainless.Extraction.Expr
import RustStainless.Extraction.Image
import RustStainless.Extraction.Traversal
import RustStainless.Extraction.TypeArgs
import RustStainless.Extraction.ReadBack
import RustStainless.Extraction.Extracts
import RustStainless.Extraction.ImageExtracts
import RustStainless.Extraction.ProperBodies
import RustStainless.Extraction.Literals
import RustStainless.Extraction.Bindings
import RustStainless.Extraction.Krate
import RustStainless.Extraction.Frontend
import RustStainless.Extraction.IfShape
import RustStainless.Extraction.Blocks
import RustStainless.Extraction.Subpatterns
import RustStainless.Extraction.Scopes
import RustStainless.Extraction.FieldFlags
import RustStainless.Extraction.Orders
import RustStainless.Extraction.BindingsImage
import RustStainless.Extraction.FnImage
import RustStainless.Extraction.KrateImage
import RustStainless.Extraction.ValueImage
import RustStainless.Extraction.PatternMeaning
import RustStainless.Extraction.BlockMeaning
import RustStainless.Extraction.Meaning
import RustStainless.Extraction.ClosedAdts
import RustStainless.Extraction.FailsClosed
import RustStainless.Extraction.IdRunsKrate
import RustStainless.Extraction.Terminates
import RustStainless.Extraction.Instantiate
import RustStainless.Extraction.IdEncoding
import RustStainless.Extraction.OrderedGenerics
import RustStainless.Extraction.HofOrders
import RustStainless.Extraction.GenericsTotal
import RustStainless.Extraction.OrderedAdts
import RustStainless.Extraction.OrderedFns
import RustStainless.Extraction.OrderedVisitor
import RustStainless.Extraction.Reproducible
import RustStainless.Macros.Syntax
import RustStainless.Macros.Implementation
import RustStainless.Macros.SpecNames
import RustStainless.Macros.Signatures
import RustStainless.Macros.Placement
import RustStainless.Macros.Repeated
import RustStainless.Macros.Routes
import RustStainless.Macros.SpecOrder
import RustStainless.Macros.SpecLayers
import RustStainless.Macros.SpecScopes
import RustStainless.Cargo.TargetDir
import RustStainless.Cargo.BuildPlan
import RustStainless.Extraction.TyUses
import RustStainless.Extraction.Uses
import RustStainless.Extraction.Calls
import RustStainless.Extraction.CrateRefs
import RustStainless.Extraction.CrateCalls
import RustStainless.Extraction.ClosedProgram
import RustStainless.Extraction.LayerMeaning
import RustStainless.Extraction.RunMeaning
import RustStainless.Extraction.ProgramMeaning
import RustStainless.Extraction.Verified
import RustStainless.Extraction.Asks
