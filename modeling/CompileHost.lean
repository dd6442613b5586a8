import CompileHost.Host.Build
import CompileHost.Host.Describe
import CompileHost.Host.Pass
import CompileHost.FileTree.Change
import CompileHost.Proofs.Cache.History
import CompileHost.Proofs.Cache.Paths
import CompileHost.Proofs.Cache.Notices
import CompileHost.Proofs.Host.Conversation
import CompileHost.Proofs.Host.Sources
import CompileHost.Proofs.Host.Calls
import CompileHost.Proofs.Host.Incremental
import CompileHost.Proofs.Host.Stages
import CompileHost.Proofs.Host.Unchanged
import CompileHost.Proofs.Path.NormalForm
import CompileHost.Proofs.Path.RoundTrip
import CompileHost.Proofs.Path.Layout
import CompileHost.Proofs.Store.History
import CompileHost.Proofs.Store.Aliases
import CompileHost.Proofs.Host.Artifacts
import CompileHost.Proofs.Text.Cutting
import CompileHost.Proofs.Preprocess.Blocks
import CompileHost.Proofs.Preprocess.Conditions
import CompileHost.Proofs.Host.Diagnostics
import CompileHost.Proofs.Host.Snapshot
import CompileHost.Proofs.FileTree.Walk
import CompileHost.Proofs.Path.Links
import CompileHost.Proofs.Store.LinkedSources
import CompileHost.Proofs.Host.Roots
import CompileHost.Proofs.Host.Renders
import CompileHost.Proofs.Host.Spellings
import CompileHost.Proofs.Path.Endings
import CompileHost.Proofs.Host.Probes
import CompileHost.Proofs.Host.Listings
import CompileHost.Proofs.Path.Keys
import CompileHost.Proofs.Path.Folding
import CompileHost.Proofs.Path.RealPaths
import CompileHost.Proofs.Reference.Passes
import CompileHost.Proofs.Reference.Outcome
import CompileHost.Proofs.HotReload.Splicing
import CompileHost.Proofs.HotReload.Words
import CompileHost.Proofs.Stylesheet.Spaces
import CompileHost.Proofs.Stylesheet.Comments
import CompileHost.Proofs.Stylesheet.Words
import CompileHost.Proofs.Stylesheet.Rounds
import CompileHost.Proofs.Markup.Quotes
import CompileHost.Proofs.Markup.StartTag
import CompileHost.Proofs.Markup.Unquoting
import CompileHost.Proofs.Markup.Outside
import CompileHost.Proofs.Markup.Visible
import CompileHost.Proofs.Markup.Collapsed
import CompileHost.Proofs.Path.Joining
import CompileHost.Proofs.Path.ShortestWay
import CompileHost.Proofs.Path.Dependency
import CompileHost.Proofs.Path.Peeling
import CompileHost.Proofs.Diagnostic.Printing
