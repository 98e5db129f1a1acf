import FtIrc.Channel
import FtIrc.Lib.OrdMap
import FtIrc.Server
import FtIrc.Commands.Channels
import FtIrc.Commands.Mode
import FtIrc.Commands.Registration
import FtIrc.Dispatch
import FtIrc.EventLoop
import FtIrc.Effects
import FtIrc.CommandEffects
import FtIrc.Moves
import FtIrc.Integrity
import FtIrc.Events
import FtIrc.MainLoop
import FtIrc.Authority
import FtIrc.Lib.Runs
import FtIrc.Membership
import FtIrc.ClientMoves
import FtIrc.Nicknames
import FtIrc.Registration
import FtIrc.Terminal
import FtIrc.Sources
import FtIrc.Lib.Records
import FtIrc.OutputStream
import FtIrc.Alike
import FtIrc.Framing
import FtIrc.Chunks
import FtIrc.Bot
import FtIrc.BotStream
import FtIrc.Authentication
import FtIrc.ParsedLine
import FtIrc.NameTurns
import FtIrc.Casemapping
import FtIrc.Departures
import FtIrc.Invitations
import FtIrc.Keys
import FtIrc.Noninterference
import FtIrc.Quits
import FtIrc.Rekeying
import FtIrc.Secrecy
import FtIrc.Addressing
import FtIrc.BotReactions
import FtIrc.IndexSafety
import FtIrc.ModeChanges
import FtIrc.ModeFitting
import FtIrc.ModeQuery
import FtIrc.ModeReplay
import FtIrc.NickChange
import FtIrc.Orphans
import FtIrc.Ownerless
import FtIrc.Resources
import FtIrc.Delivery
import FtIrc.KeyPairing
import FtIrc.Leaving
import FtIrc.Reaping
import FtIrc.Settling
import FtIrc.Rendering
import FtIrc.Roster
import FtIrc.Lib.PtrMap
import FtIrc.Lib.Presence
import FtIrc.Announcements
import FtIrc.Views
import FtIrc.Entering
import FtIrc.Regrading
import FtIrc.Showing
import FtIrc.ShownLines
import FtIrc.Agreement
import FtIrc.Conversation
import FtIrc.Surviving
import FtIrc.BotLink
import FtIrc.Login
import FtIrc.BotLogin
