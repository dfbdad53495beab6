import CallFork.Account
import CallFork.Address
import CallFork.Call
import CallFork.Call.Table
import CallFork.Command
import CallFork.Command.Verb
import CallFork.Config
import CallFork.Config.Decode
import CallFork.Effect
import CallFork.Engine
import CallFork.Engine.Scripted
import CallFork.Engine.Simulated
import CallFork.Error
import CallFork.Event
import CallFork.Group
import CallFork.Main
import CallFork.Media
import CallFork.Proofs.Effects
import CallFork.Proofs.FirstAnswer
import CallFork.Proofs.History
import CallFork.Proofs.Holders
import CallFork.Proofs.Journal
import CallFork.Proofs.LaterRounds
import CallFork.Proofs.Lifecycle
import CallFork.Proofs.Lineage
import CallFork.Proofs.Operations
import CallFork.Proofs.Refusals
import CallFork.Proofs.Releases
import CallFork.Proofs.Requests
import CallFork.Proofs.Tables
import CallFork.Proofs.Tickets
import CallFork.Proofs.Turns
import CallFork.Release
import CallFork.Service
import CallFork.Service.Mailbox
import CallFork.Service.Settle
import CallFork.Shell
import CallFork.Shell.LogLevel
import CallFork.Shell.Options
import CallFork.Sip.Grammar
import CallFork.Sip.IpAddress
import CallFork.Sip.Uri
import CallFork.Switchboard
import CallFork.Switchboard.Dump
import CallFork.Switchboard.FanOut
import CallFork.Switchboard.Hangup
import CallFork.Switchboard.Race
import CallFork.Switchboard.Request
import CallFork.Target
import CallFork.Text
import CallFork.Text.Numeral
import CallFork.Text.Percent
import CallFork.Toml.Document
import CallFork.Toml.Scalar
import CallFork.Toml.Value
import CallFork.Proofs.Verdicts
import CallFork.Proofs.Commuting
import CallFork.Proofs.HangupFailures
import CallFork.Proofs.Registry
import CallFork.Proofs.Dumps
import CallFork.Proofs.AutoClose
import CallFork.Proofs.Settlement
import CallFork.Proofs.Shutdown
import CallFork.Proofs.TableOrder
import CallFork.Proofs.EventEffects
import CallFork.Proofs.FanOuts
import CallFork.Proofs.GroupHangups
import CallFork.Proofs.Cutting
import CallFork.Proofs.DuplicateTargets
import CallFork.Proofs.Spellings
import CallFork.Proofs.Completion
import CallFork.Proofs.AccountChoice
import CallFork.Proofs.Escapes
import CallFork.Proofs.IpTexts
import CallFork.Proofs.HostTexts
import CallFork.Proofs.ParamTexts
import CallFork.Proofs.Canonical
import CallFork.Proofs.TableEdits
import CallFork.Proofs.WordTexts
import CallFork.Proofs.DirectionTexts
import CallFork.Proofs.Operands
import CallFork.Proofs.CommandTexts
import CallFork.Proofs.CommandWords
import CallFork.Proofs.CallDirections
