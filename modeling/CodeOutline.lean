import CodeOutline.Main
import CodeOutline.Wire.Direct
import CodeOutline.Wire.Encode
import CodeOutline.Proofs.Outline.Declaration
import CodeOutline.Proofs.Outline.Backtracking
import CodeOutline.Proofs.Outline.Rows
import CodeOutline.Proofs.Outline.Reading
import CodeOutline.Proofs.SyntaxTree.Placed
import CodeOutline.Proofs.SyntaxTree.Walk
import CodeOutline.Proofs.SyntaxTree.Shown
import CodeOutline.Proofs.Folder.FanOut
import CodeOutline.Proofs.Folder.Blocks
import CodeOutline.Proofs.Folder.Collected
import CodeOutline.Proofs.Folder.Splitting
import CodeOutline.Proofs.Path.Characters
import CodeOutline.Proofs.Path.Components
import CodeOutline.Proofs.Path.Order
import CodeOutline.Proofs.Disk.Access
import CodeOutline.Proofs.Disk.Changes
import CodeOutline.Proofs.Listing.Paths
import CodeOutline.Proofs.Listing.Found
import CodeOutline.Proofs.Listing.Discovered
import CodeOutline.Proofs.Listing.Languages
import CodeOutline.Proofs.Program.Outlining
import CodeOutline.Proofs.Program.Delivery
import CodeOutline.Proofs.Json.Reading
import CodeOutline.Proofs.Json.Documents
import CodeOutline.Proofs.Json.Skipping
import CodeOutline.Proofs.Json.Agreement
import CodeOutline.Proofs.Json.Writing
import CodeOutline.Proofs.Json.Lines
import CodeOutline.Proofs.Json.Postcondition
import CodeOutline.Proofs.Wire.Agreement
import CodeOutline.Proofs.Wire.RoundTrip
import CodeOutline.Proofs.CommandLine.Adding
import CodeOutline.Proofs.Program.Formats
import CodeOutline.Proofs.Settings.Layers
import CodeOutline.Proofs.Program.Startup
import CodeOutline.Proofs.Outline.Tokens
import CodeOutline.Proofs.Settings.Requests
import CodeOutline.Proofs.Outline.ReturnType
import CodeOutline.Proofs.Outline.Rendering
import CodeOutline.Proofs.Text.Offsets
import CodeOutline.Proofs.SyntaxTree.Kinds
import CodeOutline.Proofs.SyntaxTree.Names
import CodeOutline.Proofs.Ignore.Verdicts
import CodeOutline.Proofs.Listing.Excludes
import CodeOutline.Proofs.Ignore.Files
import CodeOutline.Proofs.Path.Names
import CodeOutline.Proofs.Listing.Ways
import CodeOutline.Proofs.Listing.Sites
import CodeOutline.Proofs.Text.LineBreaks
import CodeOutline.Proofs.Path.Relative
