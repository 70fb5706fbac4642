import HashArchive.Foundations.Machine
import HashArchive.Foundations.OrderedStore
import HashArchive.Foundations.ByteReader
import HashArchive.Foundations.Calendar
import HashArchive.Foundations.CProgram
import HashArchive.Foundations.Transaction
import HashArchive.Foundations.PosixRegex
import HashArchive.Foundations.Scanning
import HashArchive.Foundations.Staircase
import HashArchive.Foundations.CursorQueue
import HashArchive.Foundations.Reservation
import HashArchive.Foundations.FirstOf
import HashArchive.Foundations.Paging
import HashArchive.Foundations.Markup
import HashArchive.Foundations.Attempts
import HashArchive.Util.Url
import HashArchive.Util.Surt
import HashArchive.Util.UrlParts
import HashArchive.Server.HostCheck
import HashArchive.Util.HashCodec
import HashArchive.Util.Base64
import HashArchive.Util.Html
import HashArchive.Util.Path
import HashArchive.Util.Hasher
import HashArchive.Deps.Base58
import HashArchive.Deps.Base58RoundTrip
import HashArchive.Db.Schema
import HashArchive.Db.ResponseAdd
import HashArchive.Db.Agreement
import HashArchive.Util.HashUri
import HashArchive.Util.Multihash
import HashArchive.Util.MultihashRoundTrip
import HashArchive.Util.HashUriRoundTrip
import HashArchive.Util.HashUriBounds
import HashArchive.Db.Lookup
import HashArchive.Db.Merging
import HashArchive.Db.UrlChains
import HashArchive.Db.Recording
import HashArchive.Db.Times
import HashArchive.Db.Recent
import HashArchive.Db.History
import HashArchive.Db.Sources
import HashArchive.Pages.Sources
import HashArchive.Api.Dump
import HashArchive.Pages.History
import HashArchive.Pages.Parts
import HashArchive.Pages.Dates
import HashArchive.Pages.Templates
import HashArchive.Pages.Writing
import HashArchive.Pages.HistoryText
import HashArchive.Pages.HistoryTimes
import HashArchive.Pages.IndexText
import HashArchive.Pages.SourcesText
import HashArchive.Queue.Operations
import HashArchive.Queue.System
import HashArchive.Queue.Mirror
import HashArchive.Queue.Refinement
import HashArchive.Queue.Origins
import HashArchive.Queue.Answers
import HashArchive.Queue.CrawlDelay
import HashArchive.Queue.TimeWindows
import HashArchive.Queue.Orphans
import HashArchive.Queue.Wakeups
import HashArchive.Queue.Imports
import HashArchive.Fetch.UrlFetch
import HashArchive.Import.Reader
import HashArchive.Import.Fronts
import HashArchive.Import.Writer
import HashArchive.Import.Stream
import HashArchive.Import.Faults
import HashArchive.Import.BadRecords
import HashArchive.Util.Hex
import HashArchive.Util.Template
import HashArchive.Util.TemplateFilling
import HashArchive.Deps.CmarkTrees
import HashArchive.Deps.CmarkContents
import HashArchive.Deps.CmarkIterator
import HashArchive.Foundations.Patterns
import HashArchive.Util.Markdown
import HashArchive.Foundations.Programs
import HashArchive.Foundations.Forests
import HashArchive.Deps.CmarkNode
import HashArchive.Deps.CmarkLinks
import HashArchive.Deps.CmarkBench
import HashArchive.Util.MarkdownPasses
import HashArchive.Util.MarkdownAutolink
import HashArchive.Util.MarkdownUrls
import HashArchive.Util.MarkdownResult
import HashArchive.Deps.YajlGen
import HashArchive.Api.Json
import HashArchive.Import.FromDump
import HashArchive.Import.FromHxjs
import HashArchive.Import.Interruptions
import HashArchive.Util.HashUriVariants
import HashArchive.Server.Listener
import HashArchive.Server.Faults
import HashArchive.Server.Answers
import HashArchive.Server.Lookup
import HashArchive.Server.Enqueue
import HashArchive.Foundations.LineScan
import HashArchive.Deps.CmarkFeed
