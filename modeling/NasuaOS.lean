import NasuaOS.ClawFS.FilePaths
import NasuaOS.ClawFS.Ranges
import NasuaOS.ClawFS.Names
import NasuaOS.Scheduler.Resume
import NasuaOS.Fat.Termination
import NasuaOS.Fat.LongNames
import NasuaOS.Memory.Clients
import NasuaOS.Memory.Lifecycle
import NasuaOS.Resolver.SharedDisk
import NasuaOS.Resolver.Removal
import NasuaOS.Virtio.Ownership
import NasuaOS.Tcp.FlowControl
import NasuaOS.Tcp.Sequence
import NasuaOS.Network.Arp
import NasuaOS.Network.RoundTrip
import NasuaOS.Authentication.Saving
import NasuaOS.SuaScript.Soundness
import NasuaOS.Scheduler.Fairness
import NasuaOS.Memory.HeapCalls
import NasuaOS.Scheduler.Creation
import NasuaOS.Scheduler.Sleep
import NasuaOS.Scheduler.Stacks
import NasuaOS.Windows.Taskbar
import NasuaOS.Utilities.Paths
import NasuaOS.Browser.Layout
import NasuaOS.SuaScript.Lines
import NasuaOS.Utilities.Calculator
import NasuaOS.Shell.Scrollback
