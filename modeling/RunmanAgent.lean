import RunmanAgent.ConnLimit.Converge
import RunmanAgent.ConnLimit.Examined
import RunmanAgent.ConnLimit.Forgotten
import RunmanAgent.GoAgent.Limits.Rejected
import RunmanAgent.GoAgent.Removed
import RunmanAgent.GoAgent.TrafficSync
import RunmanAgent.GoAgent.WgRemoved
import RunmanAgent.History
import RunmanAgent.HostPolicy.Abuse
import RunmanAgent.HostPolicy.Compare
import RunmanAgent.HostPolicy.Converge
import RunmanAgent.HostPolicy.Cursor
import RunmanAgent.HostPolicy.Reload
import RunmanAgent.Migration.Rollback
import RunmanAgent.Platform.ConsoleSessions
import RunmanAgent.Platform.VmLocks
import RunmanAgent.Runtime.AddressPlan
import RunmanAgent.Runtime.CrashLoop
import RunmanAgent.Runtime.ForcedHalt
import RunmanAgent.Runtime.ForwardCalls
import RunmanAgent.Runtime.ForwardLimit
import RunmanAgent.Runtime.Guard
import RunmanAgent.Runtime.ImageGc
import RunmanAgent.Runtime.ImageSync
import RunmanAgent.Runtime.Launch
import RunmanAgent.Runtime.LinkNames
import RunmanAgent.Runtime.Quarantine
import RunmanAgent.Runtime.Refusal
import RunmanAgent.Runtime.ScheduleSwitch
import RunmanAgent.Runtime.Seccomp
import RunmanAgent.Runtime.Sizes
import RunmanAgent.Runtime.StopRequest
import RunmanAgent.Runtime.V6Routes
import RunmanAgent.Traffic.Accounting
import RunmanAgent.Traffic.Dates
import RunmanAgent.Traffic.Timezone
import RunmanAgent.Web.Limiter
import RunmanAgent.Web.SignOut
import RunmanAgent.Wg.Applied
import RunmanAgent.Wg.Bindings
import RunmanAgent.Wg.LocalWg
import RunmanAgent.Wg.Owned
