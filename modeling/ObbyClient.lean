import ObbyClient.Lib.Text
import ObbyClient.Lib.Utf8
import ObbyClient.Lib.TopKeys
import ObbyClient.Lib.Framing
import ObbyClient.Proto.Tags
import ObbyClient.Proto.Message
import ObbyClient.Proto.RoundTrip
import ObbyClient.Proto.Casemap
import ObbyClient.Proto.Isupport
import ObbyClient.Proto.ServerTime
import ObbyClient.Proto.Mode
import ObbyClient.Engine.Json
import ObbyClient.Engine.Voice
import ObbyClient.Engine.Primitives
import ObbyClient.Engine.Extensions
import ObbyClient.Engine.Model
import ObbyClient.Engine.Retention
import ObbyClient.Engine.Session
import ObbyClient.Engine.Filing
import ObbyClient.Engine.Batch
import ObbyClient.Engine.Assembly
import ObbyClient.Engine.Caps
import ObbyClient.Engine.Timer
import ObbyClient.Engine.Label
import ObbyClient.Engine.Monitor
import ObbyClient.Engine.Sasl
import ObbyClient.Engine.Scram
import ObbyClient.Engine.Command
import ObbyClient.Engine.Client
import ObbyClient.Engine.Handle
import ObbyClient.Engine.Effects
import ObbyClient.Engine.Outbound
import ObbyClient.Engine.Side
import ObbyClient.Engine.Trace
import ObbyClient.Engine.Stream
import ObbyClient.Engine.Apart
import ObbyClient.Engine.Negotiation
import ObbyClient.Engine.Login
import ObbyClient.Engine.Renaming
import ObbyClient.Engine.Bearing
import ObbyClient.Engine.Holding
import ObbyClient.Engine.Deeds
import ObbyClient.Engine.Keys
import ObbyClient.Engine.Members
import ObbyClient.Engine.Nicks
import ObbyClient.Engine.Typing
import ObbyClient.Engine.Agreement
import ObbyClient.Engine.Growth
import ObbyClient.Engine.Resume
import ObbyClient.Engine.Echo
import ObbyClient.Engine.Enrolment
import ObbyClient.Engine.Anew
import ObbyClient.Engine.Told
import ObbyClient.Proto.Relay
import ObbyClient.Engine.Attendance
import ObbyClient.Engine.Clock
import ObbyClient.Engine.Keepalive
import ObbyClient.Engine.Rooms
import ObbyClient.Engine.Silence
import ObbyClient.Engine.Answers
import ObbyClient.Engine.Frames
import ObbyClient.Engine.Whois
import ObbyClient.E2ee.Conversation
import ObbyClient.E2ee.Delivery
import ObbyClient.E2ee.Ledger
import ObbyClient.E2ee.Session
import ObbyClient.Engine.Registry
import ObbyClient.Engine.Sdp
import ObbyClient.Engine.Strangers
import ObbyClient.Engine.Unread
import ObbyClient.Engine.Modes
import ObbyClient.Engine.Reassembly
import ObbyClient.Engine.Grammar
import ObbyClient.Engine.Ranks
import ObbyClient.Engine.Challenge
import ObbyClient.Engine.Exchange
import ObbyClient.Lib.Gregorian
import ObbyClient.Lib.Longest
import ObbyClient.Proto.Calendar
import ObbyClient.Proto.Format
import ObbyClient.Proto.Instant
import ObbyClient.Proto.Spans
import ObbyClient.Proto.Tokens
import ObbyClient.E2ee.Fragments
import ObbyClient.E2ee.Store
import ObbyClient.Engine.Ancestry
import ObbyClient.Engine.Asking
import ObbyClient.Engine.Backoff
import ObbyClient.Engine.Mentions
import ObbyClient.Engine.Multiline
import ObbyClient.E2ee.Crossing
import ObbyClient.E2ee.Healing
import ObbyClient.Engine.Reports
import ObbyClient.Engine.Stories
import ObbyClient.E2ee.Intruder
import ObbyClient.Engine.Bounds
import ObbyClient.Engine.Drain
import ObbyClient.Engine.Identity
import ObbyClient.Engine.Verifier
import ObbyClient.Host.Driver
import ObbyClient.Engine.Postings
import ObbyClient.Engine.Replicas
