import Slirc.Event.Runs
import Slirc.EventManager.Ledger
import Slirc.EventManager.Pump
import Slirc.Connection.Attempts
import Slirc.Connection.Lines
import Slirc.Connection.SendJob
import Slirc.Connection.Sessions
import Slirc.Connection.StateChanges
import Slirc.Connection.Disconnecting
import Slirc.Connection.Engaged
import Slirc.Connection.Outstanding
import Slirc.Connection.Outgoing
import Slirc.EventManager.Consumers
import Slirc.EventManager.Resume
import Slirc.EventManager.Signals
import Slirc.Component.Container
import Slirc.Irc.Modules
import Slirc.Connection.Grammar
import Slirc.Connection.SetEndpoint
import Slirc.Event.Ranges
import Slirc.Component.Slots
import Slirc.EventManager.Afterwards
import Slirc.Lib.Scopes
import Slirc.EventManager.Nesting
import Slirc.EventManager.Terminating
import Slirc.EventManager.Played
import Slirc.Irc.Loading
import Slirc.Irc.Destruction
import Slirc.Connection.Trying
import Slirc.EventManager.Locking
import Slirc.Lib.Locks
import Slirc.EventManager.Exclusion
import Slirc.EventManager.Atomic
import Slirc.EventManager.Progress
import Slirc.EventManager.Sections
import Slirc.Connection.Transcript
import Slirc.Connection.FirstSession
import Slirc.Client.Delivery
import Slirc.EventManager.Solo
import Slirc.Client.MainLoop
import Slirc.Client.Minibot
import Slirc.Connection.Lifetime
import Slirc.Network.Service
