import Esmail.Library.Machine
import Esmail.Library.RustText
import Esmail.Mailbox.Header
import Esmail.Mailbox.OpenFolder
import Esmail.Mailbox.Server
import Esmail.Mailbox.Session
import Esmail.Mailbox.Hiding
import Esmail.Mailbox.Completeness
import Esmail.Mailbox.Holes
import Esmail.Reading.Reader
import Esmail.Reading.Render
import Esmail.Library.CssSyntax
import Esmail.Rendering.Stylesheet
import Esmail.Library.Html
import Esmail.Rendering.Sanitize
import Esmail.Outgoing.Deliveries
import Esmail.Outgoing.MainWindow
import Esmail.Outgoing.System
import Esmail.Outgoing.Books
import Esmail.Outgoing.Wiring
import Esmail.Outgoing.Numbering
import Esmail.Outgoing.Holders
import Esmail.Outgoing.ExactlyOnce
import Esmail.Outgoing.Orphans
import Esmail.Outgoing.Labels
import Esmail.Cache.Tables
import Esmail.Mailbox.Representation
import Esmail.Cache.Search
import Esmail.Cache.Commands
import Esmail.Cache.Filters
import Esmail.Cache.Searchable
import Esmail.Cache.Eviction
import Esmail.Library.StableSort
import Esmail.Cache.Referential
import Esmail.Cache.Offline
import Esmail.Outgoing.Saving
import Esmail.Outgoing.Schedule
import Esmail.Cache.Sync
import Esmail.App.Core
import Esmail.App.Pump
import Esmail.App.System
import Esmail.App.Sessions
import Esmail.Outgoing.Filing
import Esmail.Outgoing.LatestAttempt
import Esmail.Outgoing.DraftRows
import Esmail.Outgoing.Lines
import Esmail.Outgoing.NothingLost
import Esmail.Settings.Config
import Esmail.Watching.Watcher
import Esmail.App.Desk
import Esmail.App.Frontend
import Esmail.App.StatusBar
import Esmail.App.Screen
import Esmail.Browsing.BodyLoads
import Esmail.Browsing.Window
import Esmail.Browsing.Rows
import Esmail.Browsing.Pane
import Esmail.Settings.Changes
import Esmail.Watching.Notify
import Esmail.Library.Xml
import Esmail.Watching.Forwarder
import Esmail.Rendering.CleanSheet
import Esmail.Library.CssConcat
import Esmail.Library.CssSolid
import Esmail.Rendering.ReadBack
import Esmail.Fetching.Worker
import Esmail.Library.LineReader
import Esmail.Ipc.Connection
import Esmail.Ipc.Framing
import Esmail.Mailbox.Moving
import Esmail.Browsing.Selection
import Esmail.Library.RustSplit
import Esmail.Library.Utf8
import Esmail.Reading.Envelope
import Esmail.Outgoing.Reply
import Esmail.Outgoing.Recipients
import Esmail.Library.Substitution
import Esmail.Rendering.Parts
import Esmail.Rendering.InlineImages
import Esmail.Rendering.Attachments
import Esmail.Mailbox.Paging
import Esmail.Outgoing.Unsaved
import Esmail.Settings.Redirect
import Esmail.Library.RustSlice
import Esmail.Reading.Images
import Esmail.Reading.View
import Esmail.Reading.Frames
import Esmail.Reading.OneWorker
import Esmail.Settings.AccountForm
import Esmail.Settings.Keyring
import Esmail.Browsing.Requests
import Esmail.Browsing.Actions
import Esmail.Browsing.ProgressBar
import Esmail.Cache.Query
import Esmail.Browsing.Searching
import Esmail.Folders.Tree
import Esmail.Library.Outline
import Esmail.Folders.Sorted
import Esmail.Folders.Rows
import Esmail.Folders.Keys
import Esmail.Folders.FolderTree
import Esmail.Library.Quoting
import Esmail.Cache.MatchText
import Esmail.Fetching.Answers
import Esmail.Fetching.Unsolicited
import Esmail.Fetching.Bulk
import Esmail.Library.HtmlText
import Esmail.Library.TextLines
import Esmail.Rendering.Document
import Esmail.Outgoing.Quoting
import Esmail.Watching.Toast
import Esmail.Reading.Links
import Esmail.Library.WinPath
import Esmail.Reading.AttachmentFiles
import Esmail.Browsing.InBounds
import Esmail.Reading.Emoji
import Esmail.Reading.TextSelection
import Esmail.Settings.Saving
import Esmail.Settings.Purge
import Esmail.Library.Placeholders
import Esmail.Library.Spans
import Esmail.Library.FileOps
import Esmail.Library.DirTree
import Esmail.App.ShellRequests
import Esmail.Fetching.Actor
import Esmail.Settings.Tokens
import Esmail.Library.HtmlPieces
import Esmail.Reading.MessagePane
