import Parley.Engine.Journal
import Parley.Engine.Threads
import Parley.EventLoop
import Parley.Image.Filters
import Parley.Main
import Parley.Transport.Scripted
import Parley.Proofs.Steps
import Parley.Proofs.Inbox
import Parley.Proofs.Conservation
import Parley.Proofs.Lineage
import Parley.Proofs.Requests
import Parley.Proofs.Sessions
import Parley.Proofs.Retirement
import Parley.Proofs.Freshness
import Parley.Proofs.Answers
import Parley.Proofs.Conversation
import Parley.Proofs.Overtaking
import Parley.Proofs.Secrecy
import Parley.Proofs.Maps
import Parley.Proofs.Digits
import Parley.Proofs.Utf8
import Parley.Proofs.Reading
import Parley.Proofs.JsonRoundTrip
import Parley.Proofs.MessageRoundTrip
import Parley.Proofs.Payload
import Parley.Engine.Calls
import Parley.Proofs.Lifecycle
import Parley.Proofs.Anomalies
import Parley.Proofs.Batches
import Parley.Proofs.Failures
import Parley.Proofs.Doubles
import Parley.Proofs.Values
import Parley.Proofs.ArgumentText
import Parley.Proofs.Beside
import Parley.Proofs.EmptyPrompts
import Parley.Proofs.Grammar
import Parley.Proofs.Characters
import Parley.Proofs.Numerals
import Parley.Proofs.Spellings
import Parley.Proofs.Soundness
import Parley.Proofs.Completeness
import Parley.Proofs.Arguments
import Parley.Proofs.Integers
import Parley.Proofs.Acceptance
import Parley.Proofs.Independence
import Parley.Proofs.Registrations
import Parley.Proofs.StatusCodes
import Parley.Proofs.Presets
import Parley.Proofs.Scripts
import Parley.Proofs.Outlines
import Parley.Proofs.Directories
import Parley.Proofs.Numbering
import Parley.Proofs.Wakes
import Parley.Proofs.Parameters
import Parley.Proofs.Log
