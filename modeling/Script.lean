import Script.Main
import Script.Host
import Script.Module.FileTree
import Script.Proofs.Attribution
import Script.Proofs.Balance
import Script.Proofs.Placement
import Script.Proofs.Everywhere
import Script.Proofs.Fuel
import Script.Proofs.Settling
import Script.Proofs.Termination
import Script.Proofs.RecursionLimit
import Script.Proofs.Loading
import Script.Proofs.RaisedLimit
import Script.Proofs.Isolation
import Script.Proofs.IncludeOrder
import Script.Proofs.Grammar.Printing
import Script.Proofs.Lexing.Layout
import Script.Proofs.Lexing.Spacing
import Script.Proofs.Grammar.Nodes
import Script.Proofs.Grammar.Slices
import Script.Proofs.Grammar.Blame
import Script.Proofs.Grammar.Semicolons
import Script.Proofs.Grammar.Progress
import Script.Proofs.Scoping
import Script.Proofs.Unmentioned
import Script.Proofs.Survival
import Script.Proofs.EmptyScope
import Script.Proofs.LoopForms
import Script.Proofs.LeftScopes
import Script.Proofs.Definitions
import Script.Proofs.Registry
import Script.Proofs.Faultless
import Script.Proofs.IntegerArithmetic
import Script.Proofs.Assignment
import Script.Proofs.Echo
import Script.Proofs.Progressions
import Script.Proofs.Elements
import Script.Proofs.Comparison
import Script.Proofs.Lexing.LineBreaks
import Script.Proofs.ModuleSearch
import Script.Proofs.Colours
import Script.Proofs.Sequences
