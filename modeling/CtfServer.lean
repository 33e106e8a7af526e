import CtfServer.Lib.Bytes
import CtfServer.Lib.Heap
import CtfServer.Lib.Decimal
import CtfServer.Lib.Buffer
import CtfServer.Lib.Calendar
import CtfServer.Lib.Incremental
import CtfServer.Lib.Readers
import CtfServer.Lib.History
import CtfServer.Lib.Runs
import CtfServer.Lib.LinkedQueue
import CtfServer.Lib.Memory
import CtfServer.Lib.Arena
import CtfServer.Lib.Pairing
import CtfServer.Lib.JsString
import CtfServer.Lib.Intrusive
import CtfServer.Http.Request
import CtfServer.Http.Chunks
import CtfServer.Http.Grammar
import CtfServer.Http.RequestLine
import CtfServer.Http.HeaderLines
import CtfServer.Http.Accept
import CtfServer.Http.Names
import CtfServer.Http.Bounds
import CtfServer.Http.Path
import CtfServer.Http.Query
import CtfServer.Http.Uri
import CtfServer.Http.Response
import CtfServer.Http.Sending
import CtfServer.Http.Connections
import CtfServer.Json.Text
import CtfServer.Json.Literal
import CtfServer.Json.Utf8
import CtfServer.Json.Parser
import CtfServer.Json.Requests
import CtfServer.Json.Grammar
import CtfServer.Json.Denotation
import CtfServer.Json.Recognize
import CtfServer.Json.Pointers
import CtfServer.Json.Unambiguous
import CtfServer.Json.Fields
import CtfServer.Json.MemberNames
import CtfServer.Json.AuthBody
import CtfServer.Json.Stringify
import CtfServer.Json.Respelling
import CtfServer.Json.Solvable
import CtfServer.App.Database
import CtfServer.App.Repository
import CtfServer.App.Auth
import CtfServer.App.Token
import CtfServer.App.Output
import CtfServer.App.Writers
import CtfServer.App.ListWriters
import CtfServer.App.Listing
import CtfServer.App.ChallengeText
import CtfServer.App.ListReader
import CtfServer.App.ListSlice
import CtfServer.App.ListGrammar
import CtfServer.App.ListRoundTrip
import CtfServer.App.Handler
import CtfServer.App.HandlerAuth
import CtfServer.App.HandlerChallenge
import CtfServer.App.HandlerAnswer
import CtfServer.App.Lists
import CtfServer.App.Scores
import CtfServer.App.Routes
import CtfServer.App.Waiting
import CtfServer.App.Shape
import CtfServer.App.Gate
import CtfServer.App.Replies
import CtfServer.App.Check
import CtfServer.App.Stories
import CtfServer.Store.Tables
import CtfServer.Store.Evolution
import CtfServer.Store.Reads
import CtfServer.Store.Valid
import CtfServer.Store.Admitted
import CtfServer.Store.Sessions
import CtfServer.Store.Users
import CtfServer.App.AuthStories
import CtfServer.System.World
import CtfServer.System.Serve
import CtfServer.System.Link
import CtfServer.System.Executions
import CtfServer.System.Story
import CtfServer.System.Jobs
import CtfServer.System.Stored
import CtfServer.System.Challenges
import CtfServer.System.Answers
import CtfServer.System.Scoreboard
import CtfServer.System.Accounts
import CtfServer.System.Sessions
import CtfServer.System.Lifecycle
import CtfServer.System.Credentials
import CtfServer.System.Discipline
import CtfServer.Server.Objects
import CtfServer.Server.Ownership
import CtfServer.Server.Completions
import CtfServer.Server.Loop
import CtfServer.Server.Lists
import CtfServer.Workers.DbPool
import CtfServer.Workers.DbParams
import CtfServer.Workers.PasswordWorker
import CtfServer.System.Views
import CtfServer.Client.Session
import CtfServer.Client.PageState
import CtfServer.Client.Responses
import CtfServer.Client.Forms
import CtfServer.Client.DetailPage
import CtfServer.Client.Contest
import CtfServer.Client.Ranking
import CtfServer.App.Contest
import CtfServer.App.Numbers
