import Redbox.Accounts.DeletionTerminal
import Redbox.Accounts.DeletionRequests
import Redbox.Accounts.SessionRevocation
import Redbox.Accounts.Restrictions
import Redbox.Accounts.InviteCodes
import Redbox.Accounts.TokenStatus
import Redbox.Accounts.CachedKeys
import Redbox.Content.Erasure
import Redbox.Content.MailRecipients
import Redbox.Download.StreamingDecryption
import Redbox.Download.Downloadable
import Redbox.Files.DanglingFiles
import Redbox.Files.UploadAdmission
import Redbox.Files.FileQuota
import Redbox.RateLimit.FixedWindow
import Redbox.RateLimit.PasswordAttempts
import Redbox.RateLimit.StreamLimits
import Redbox.Content.MailQuota
import Redbox.Content.MailBroadcast
import Redbox.ServiceWorker.Lifetimes
import Redbox.ServiceWorker.Ownership
import Redbox.Http.ProxyTrust
import Redbox.Frontend.TokenRefresh
import Redbox.Files.SingleUpload
import Redbox.Files.FailedInitialization
import Redbox.Notifications.NotificationHub
import Redbox.Notifications.Delivery
import Redbox.Accounts.DeletionPaths
import Redbox.Files.LeftoverUploads
import Redbox.Files.SerialChunks
import Redbox.Content.CreationCaps
import Redbox.Content.BlogService
import Redbox.Content.BlogTexts
import Redbox.ServiceWorker.PageAndWorker
import Redbox.Bins.BinLimits
import Redbox.Frontend.SafeMarkdown
import Redbox.Content.BlockedSenders
import Redbox.Backend.ScheduledJobs
import Redbox.Content.MailStorage
import Redbox.Http.ProxyMembership
import Redbox.Files.SweptUploads
import Redbox.Accounts.MasterKeys
import Redbox.Frontend.SystemNotifications
import Redbox.Dashboard.Charts
import Redbox.ServiceWorker.HeaderText
import Redbox.Accounts.StatusAgreement
import Redbox.Content.StoredLinks
import Redbox.Files.AcceptedChunks
import Redbox.Content.RecalledMails
import Redbox.Content.MailListing
import Redbox.Notifications.MailEvents
import Redbox.Content.MailReading
import Redbox.Reports.AuditTrail
import Redbox.Accounts.ExchangedKeys
import Redbox.Content.BlogPublication
import Redbox.Bins.OpenedBins
