import OAuthValidator.TicketOwnership
import OAuthValidator.SingleFlight
import OAuthValidator.StoredDocuments
import OAuthValidator.WithdrawnKey
import OAuthValidator.WaitingClock
import OAuthValidator.UnknownKid
import OAuthValidator.CacheTransparency
import OAuthValidator.Authorization
import OAuthValidator.TokenIndependence
import OAuthValidator.CacheKeyBuffer
import OAuthValidator.CacheRepresentation
import OAuthValidator.CooldownRuns
import OAuthValidator.Eviction
import OAuthValidator.WakeUp
import OAuthValidator.ClaimsForms
import OAuthValidator.EnvelopeGrammar
import OAuthValidator.FreshnessExact
import OAuthValidator.UrlAgreement
import OAuthValidator.ListAgreement
import OAuthValidator.HeaderCapture
import OAuthValidator.AcceptedSettings
import OAuthValidator.AllowlistExact
import OAuthValidator.Utf8Exact
import OAuthValidator.RsaAdmission
import OAuthValidator.CacheControlGrammar
import OAuthValidator.Wrapper
import OAuthValidator.DocumentAge
import OAuthValidator.Deployed
import OAuthValidator.Confinement
import OAuthValidator.SharedSegment
import OAuthValidator.Retention
import OAuthValidator.CacheHistory
import OAuthValidator.TransferLoop
import OAuthValidator.TransferProtocol
import OAuthValidator.CallbackDecision
import OAuthValidator.Tightening
import OAuthValidator.LostRefresh
import OAuthValidator.MachineMemory
import OAuthValidator.CacheMemory
import OAuthValidator.Tally
import OAuthValidator.CacheAccounting
