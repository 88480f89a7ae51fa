import LoxFront.Compare
import LoxFront.Cursor.Walk
import LoxFront.Main
import LoxFront.Proofs.Rule.Frame
import LoxFront.Proofs.Source.Stmt
import LoxFront.Proofs.Source.ExprSound
import LoxFront.Proofs.Source.Levels
import LoxFront.Proofs.Source.ExprComplete
import LoxFront.Proofs.Source.Tree
import LoxFront.Proofs.Source.StmtSound
import LoxFront.Proofs.Cursor.Start
import LoxFront.Proofs.Parse.Pass
import LoxFront.Proofs.Source.StmtComplete
import LoxFront.Proofs.Parse.Grammar
import LoxFront.Proofs.Parse.Faults
import LoxFront.Proofs.Rule.Account
import LoxFront.Proofs.Parse.Lost
import LoxFront.Proofs.Rule.Alike
import LoxFront.Proofs.Rule.First
import LoxFront.Proofs.Rule.Shared
import LoxFront.Proofs.Rule.Local
import LoxFront.Proofs.Parse.Alike
import LoxFront.Proofs.Parse.Local
import LoxFront.Proofs.Scan.Lexeme
import LoxFront.Proofs.Scan.Cuts
import LoxFront.Proofs.Scan.Finds
import LoxFront.Proofs.Scan.Bytes
import LoxFront.Proofs.Scan.Machine
import LoxFront.Proofs.Scan.Walk
import LoxFront.Proofs.Scan.Layout
import LoxFront.Proofs.Source.Derives
import LoxFront.Proofs.Source.ExprBreaks
import LoxFront.Proofs.Source.StmtBreaks
import LoxFront.Proofs.Parse.Impossible
import LoxFront.Proofs.Scan.Apart
import LoxFront.Proofs.Scan.Respaced
import LoxFront.Proofs.Tree.Height
import LoxFront.Proofs.Source.Height
import LoxFront.Proofs.Parse.Program
import LoxFront.Proofs.Parse.Limit
import LoxFront.Proofs.Parse.Expansion
import LoxFront.Proofs.Parse.Height
import LoxFront.Proofs.Cursor.Semicolons
import LoxFront.Proofs.Cursor.Index
import LoxFront.Proofs.Cursor.Walk
import LoxFront.Proofs.Rule.Spaced
import LoxFront.Proofs.Parse.Spaced
import LoxFront.Proofs.Rule.Entering
import LoxFront.Proofs.Rule.Panic
import LoxFront.Proofs.Parse.Panic
import LoxFront.Proofs.Json.Escape
import LoxFront.Proofs.Json.Plain
import LoxFront.Proofs.Json.Form
import LoxFront.Proofs.Json.Text
import LoxFront.Proofs.Tree.Json
import LoxFront.Proofs.Parse.Json
import LoxFront.Proofs.Decimal.Shortest
import LoxFront.Proofs.Decimal.Listing
import LoxFront.Proofs.Tree.Nested
import LoxFront.Proofs.Tree.Leaf
import LoxFront.Proofs.Tree.Printed
import LoxFront.Proofs.Parse.Printed
import LoxFront.Proofs.Tree.Bare
import LoxFront.Proofs.Parse.Kinds
import LoxFront.Proofs.Scan.Next
import LoxFront.Proofs.Scan.Blank
import LoxFront.Proofs.Parse.HandOver
import LoxFront.Proofs.Cli.Outcome
import LoxFront.Proofs.Cli.Args
import LoxFront.Proofs.Cli.Directory
import LoxFront.Proofs.Cli.Log
import LoxFront.Proofs.Scan.Division
import LoxFront.Proofs.Scan.Joined
import LoxFront.Proofs.Scan.Lines
import LoxFront.Proofs.Scan.Mended
import LoxFront.Proofs.Tree.Node
import LoxFront.Proofs.Source.Size
import LoxFront.Proofs.Parse.Size
import LoxFront.Proofs.Rule.Advances
import LoxFront.Proofs.Rule.Gives
import LoxFront.Proofs.Rule.Confined
