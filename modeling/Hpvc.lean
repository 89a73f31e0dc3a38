import Hpvc.ExecuterArrivals
import Hpvc.ExecuterClusterRuns
import Hpvc.ExecuterHandshake
import Hpvc.ExecuterListener
import Hpvc.ExecuterMoves
import Hpvc.ExecuterNetwork
import Hpvc.ExecuterReplies
import Hpvc.ExecuterRequests
import Hpvc.ExecuterSequence
import Hpvc.ExecuterSessions
import Hpvc.ExecuterStuck
import Hpvc.ExecuterTeleports
import Hpvc.ExecuterUpRecords
import Hpvc.GuestScan
import Hpvc.HostEnding
import Hpvc.HostFinish
import Hpvc.HostFreeSlots
import Hpvc.HostLaunch
import Hpvc.HostOccupancy
import Hpvc.HostPotential
import Hpvc.HostRounds
import Hpvc.Library.PairCosts
import Hpvc.Library.Progress
import Hpvc.Library.RequestReply
import Hpvc.MonitorAbsent
import Hpvc.MonitorConfig
import Hpvc.MonitorGuests
import Hpvc.MonitorLookup
import Hpvc.MonitorMachines
import Hpvc.MonitorMetrics
import Hpvc.MonitorRegistration
import Hpvc.MonitorSmoothing
import Hpvc.OrganizerAccounting
import Hpvc.OrganizerBookkeeping
import Hpvc.OrganizerCollision
import Hpvc.OrganizerCompletion
import Hpvc.OrganizerCreation
import Hpvc.OrganizerDecision
import Hpvc.OrganizerGuestBalance
import Hpvc.OrganizerHomeMoves
import Hpvc.OrganizerHull
import Hpvc.OrganizerLaunch
import Hpvc.OrganizerPenalty
import Hpvc.OrganizerRequests
import Hpvc.OrganizerRetry
import Hpvc.OrganizerSettling
import Hpvc.OrganizerShutdown
import Hpvc.OrganizerSlowdown
import Hpvc.OrganizerSmoothing
import Hpvc.OrganizerTargets
import Hpvc.OrganizerTraffic
import Hpvc.OrganizerTurnTaking
import Hpvc.OrganizerWork
import Hpvc.ProjectAccounting
import Hpvc.ProjectCompletion
import Hpvc.ProjectNames
import Hpvc.ProjectProcesses
import Hpvc.ProjectProtocol
import Hpvc.ProjectReport
import Hpvc.ProjectRounds
