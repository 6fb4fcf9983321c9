import TagPrompt.Categories
import TagPrompt.Choice.Basic
import TagPrompt.Choice.KeyStream
import TagPrompt.CommandLine.Arguments
import TagPrompt.CommandLine.Command
import TagPrompt.CommandLine.Failure
import TagPrompt.CommandLine.Run
import TagPrompt.CorpusLayout
import TagPrompt.DataFile
import TagPrompt.Expansion.Placeholder
import TagPrompt.Expansion.Group
import TagPrompt.Files.Tree
import TagPrompt.Generation.Filtering
import TagPrompt.Generation.Generator
import TagPrompt.Generation.Ratings
import TagPrompt.Json.Reader
import TagPrompt.Json.Value
import TagPrompt.Main
import TagPrompt.Prompt.Basic
import TagPrompt.Prompt.Reading
import TagPrompt.Prompt.Writing
import TagPrompt.Search.CorpusLine
import TagPrompt.Search.PositionSet
import TagPrompt.Search.Positions
import TagPrompt.Search.Query
import TagPrompt.Search.Resolver
import TagPrompt.Search.TagIndex
import TagPrompt.Settings.Basic
import TagPrompt.Settings.Change
import TagPrompt.Settings.Toml
import TagPrompt.Source.Basic
import TagPrompt.Source.Http
import TagPrompt.Source.Location
import TagPrompt.Source.Memory
import TagPrompt.Text.Basic
import TagPrompt.Text.Message
import TagPrompt.Text.ExtendingMark
import TagPrompt.Text.Unprintable
import TagPrompt.Text.Utf8
import TagPrompt.Toml.Moment
import TagPrompt.Toml.Number
import TagPrompt.Toml.Quoted
import TagPrompt.Toml.Reader
import TagPrompt.Toml.Record
import TagPrompt.Toml.Table
import TagPrompt.Wildcards
import TagPrompt.Proofs.Prompt.Plain
import TagPrompt.Proofs.Prompt.RoundTrip
import TagPrompt.Proofs.Search.Planning
import TagPrompt.Proofs.Search.PositionSet
import TagPrompt.Proofs.Search.SetAlgebra
import TagPrompt.Proofs.Search.QueryTags
import TagPrompt.Proofs.Search.Selection
import TagPrompt.Proofs.Text.Order
import TagPrompt.Proofs.Text.Split
import TagPrompt.Proofs.Search.QueryKey
import TagPrompt.Proofs.Search.PositionTable
import TagPrompt.Proofs.Search.CacheRuns
import TagPrompt.Proofs.Search.CorpusLine
import TagPrompt.Proofs.CorpusLayout.Groups
import TagPrompt.Proofs.CorpusLayout.Lines
import TagPrompt.Proofs.CorpusLayout.Table
import TagPrompt.Proofs.CorpusLayout.Search
import TagPrompt.Proofs.Search.Failure
import TagPrompt.Proofs.Search.Overlap
import TagPrompt.Proofs.Generation.Filtering
import TagPrompt.Proofs.Expansion.Groups
import TagPrompt.Proofs.Expansion.Placeholders
import TagPrompt.Proofs.Generation.GeneralRating
import TagPrompt.Proofs.Expansion.Grammar
import TagPrompt.Proofs.Generation.Stability
import TagPrompt.Proofs.Prompt.OpenGroups
import TagPrompt.Proofs.Prompt.Shortest
import TagPrompt.Proofs.Prompt.Segments
import TagPrompt.Proofs.Prompt.Distinct
import TagPrompt.Proofs.Prompt.Spelling
import TagPrompt.Proofs.Generation.Assembly
import TagPrompt.Proofs.Generation.Repetition
import TagPrompt.Proofs.Wildcards.Loading
import TagPrompt.Proofs.Wildcards.Addressing
import TagPrompt.Proofs.Search.Reuse
import TagPrompt.Proofs.Source.Ranges
import TagPrompt.Proofs.Text.Digits
import TagPrompt.Proofs.Expansion.Replacement
import TagPrompt.Proofs.Source.Agreement
import TagPrompt.Proofs.Toml.Quoted
import TagPrompt.Proofs.Toml.Strings
import TagPrompt.Proofs.Toml.Values
import TagPrompt.Proofs.Toml.Statements
import TagPrompt.Proofs.Toml.Tables
import TagPrompt.Proofs.Settings.RoundTrip
import TagPrompt.Proofs.Prompt.StableSort
import TagPrompt.Proofs.Prompt.Presentation
import TagPrompt.Proofs.Expansion.Settled
import TagPrompt.Proofs.Expansion.Rescanning
import TagPrompt.Proofs.Search.Validation
import TagPrompt.Proofs.Search.Progress
import TagPrompt.Proofs.Search.Slots
import TagPrompt.Proofs.Text.ByteOrder
import TagPrompt.Proofs.CorpusLayout.Invariant
import TagPrompt.Proofs.Prompt.Extraction
import TagPrompt.Proofs.Prompt.Difference
import TagPrompt.Proofs.Search.Listing
import TagPrompt.Proofs.Generation.RatingNames
import TagPrompt.Proofs.Wildcards.ListingOrder
import TagPrompt.Proofs.Wildcards.CleanLists
import TagPrompt.Proofs.Expansion.Lines
import TagPrompt.Proofs.Json.RoundTrip
import TagPrompt.Proofs.Search.IndexFile
import TagPrompt.Proofs.CorpusLayout.IndexFile
import TagPrompt.Proofs.Files.Tree
import TagPrompt.Proofs.CommandLine.Lookup
