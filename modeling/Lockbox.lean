import Lockbox.CommandLine.Agent
import Lockbox.Main
import Lockbox.Proofs.Agent.Answers
import Lockbox.Proofs.Agent.Client
import Lockbox.Proofs.Agent.Framing
import Lockbox.Proofs.Agent.Interleaving
import Lockbox.Proofs.Agent.Keeping
import Lockbox.Proofs.Agent.Serving
import Lockbox.Proofs.Agent.Wire
import Lockbox.Proofs.Canonical
import Lockbox.Proofs.Cipher.Feedback
import Lockbox.Proofs.Cipher.Healing
import Lockbox.Proofs.Container
import Lockbox.Proofs.Container.SortedMap
import Lockbox.Proofs.Credentials.Grammar
import Lockbox.Proofs.Credentials.Record
import Lockbox.Proofs.Credentials.Recovery
import Lockbox.Proofs.Credentials.Storing
import Lockbox.Proofs.Decoding
import Lockbox.Proofs.Encoding.Base64
import Lockbox.Proofs.Encoding.Utf8
import Lockbox.Proofs.Envelope
import Lockbox.Proofs.Envelope.Binding
import Lockbox.Proofs.Envelope.RoundTrip
import Lockbox.Proofs.Envelope.Sizes
import Lockbox.Proofs.Envelope.Stages
import Lockbox.Proofs.Envelope.Suites
import Lockbox.Proofs.Files.Create
import Lockbox.Proofs.Files.Disk
import Lockbox.Proofs.Files.Links
import Lockbox.Proofs.Files.Plain
import Lockbox.Proofs.Files.RawPath
import Lockbox.Proofs.Files.Refused
import Lockbox.Proofs.Files.Replace
import Lockbox.Proofs.Files.Taken
import Lockbox.Proofs.Files.Twins
import Lockbox.Proofs.Files.Walk
import Lockbox.Proofs.Location
import Lockbox.Proofs.Location.Cleaning
import Lockbox.Proofs.Location.Normal
import Lockbox.Proofs.Session.Agreement
import Lockbox.Proofs.Session.AnyAgent
import Lockbox.Proofs.Session.Creation
import Lockbox.Proofs.Session.Effects
import Lockbox.Proofs.Session.Failures
import Lockbox.Proofs.Session.Freshness
import Lockbox.Proofs.Session.Legacy
import Lockbox.Proofs.Session.OneFormat
import Lockbox.Proofs.Session.Refinement
import Lockbox.Proofs.Session.Remembered
import Lockbox.Proofs.Session.Steps
import Lockbox.Proofs.Session.Tasks
import Lockbox.Proofs.Session.Twins
import Lockbox.Proofs.Session.Verified
