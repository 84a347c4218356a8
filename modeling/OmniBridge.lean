import OmniBridge.ClipboardSessions
import OmniBridge.PhoneTransferPeer
import OmniBridge.PhoneTrustFile
import OmniBridge.PhoneDismiss
import OmniBridge.PhoneSettles
import OmniBridge.DesktopPolicies
import OmniBridge.DesktopRevocation
import OmniBridge.DesktopGrants
import OmniBridge.DesktopPairSessions
import OmniBridge.DesktopLifetime
import OmniBridge.DesktopShutdown
import OmniBridge.DesktopTeardown
import OmniBridge.SinkAnnounce
import OmniBridge.SinkNarrowing
import OmniBridge.SinkLock
import OmniBridge.SinkSignals
import OmniBridge.SinkReconcile
import OmniBridge.SinkMeaning
import OmniBridge.SinkHistory
import OmniBridge.SinkText
import OmniBridge.DesktopProgress
import OmniBridge.DesktopDelivery
import OmniBridge.DesktopRegistry
import OmniBridge.DesktopAgreement
import OmniBridge.DesktopFileLimits
import OmniBridge.DesktopFileStops
import OmniBridge.DesktopFileOutcome
import OmniBridge.DesktopFileApproval
import OmniBridge.DesktopFileRemains
import OmniBridge.DesktopFileDialers
import OmniBridge.DesktopRestart
import OmniBridge.DesktopReading
import OmniBridge.PhoneTrustMemory
import OmniBridge.PhoneConnection
import OmniBridge.PhoneConsent
import OmniBridge.PhoneCoordinator
