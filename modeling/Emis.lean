import Emis.Library.Rules
import Emis.Cohorts.EnrollmentsService
import Emis.Cohorts.Frames
import Emis.Cohorts.Seats
import Emis.Cohorts.Interleaved
import Emis.Cohorts.Effects
import Emis.Cohorts.Queue
import Emis.Cohorts.SessionDates
import Emis.Library.Numerals
import Emis.Library.NumeralOrder
import Emis.Numbering.Pattern
import Emis.Numbering.Frames
import Emis.Numbering.InOrder
import Emis.Numbering.NumberingService
import Emis.Numbering.Distinct
import Emis.Billing.MoneyFlow
import Emis.Billing.InvoicesService
import Emis.Billing.ApprovalsService
import Emis.Billing.Books
import Emis.Billing.Balance
import Emis.Billing.Operations
import Emis.Billing.Balanced
import Emis.Billing.MakerChecker
import Emis.Billing.Frames
import Emis.Billing.Interleaved
import Emis.Billing.FourEyes
import Emis.Common.Calendar
import Emis.Common.Pagination
import Emis.Common.Idempotency
import Emis.Common.ExecutedOnce
import Emis.Numbering.Gapless
import Emis.Library.Script
import Emis.Cohorts.Lifecycle
import Emis.Cohorts.Monotone
import Emis.Numbering.Callers
import Emis.Common.Json
import Emis.Common.JsonText
import Emis.Audit.HashChain
import Emis.Audit.AuditService
import Emis.Audit.Chain
import Emis.Audit.Tampered
import Emis.Audit.Recorded
import Emis.Identity.AccountsService
import Emis.Access.UsersService
import Emis.Access.Admins
import Emis.Access.LastAdmin
import Emis.Admissions.Schema
import Emis.Admissions.StudentsService
import Emis.Admissions.ApplicationsService
import Emis.Admissions.Interleaved
import Emis.Admissions.Respected
import Emis.Library.Noninterference
import Emis.PublicSite.PreRegistrationsService
import Emis.PublicSite.Concealed
import Emis.Cohorts.Capacity
import Emis.Admissions.Phone
import Emis.Admissions.Spellings
import Emis.Admissions.StudentSearch
import Emis.Admissions.FoundByPhone
import Emis.Library.Evidence
import Emis.Admissions.Website
import Emis.Posts.LivePosts
import Emis.Posts.Slug
import Emis.Library.Writes
import Emis.Posts.CreatePost
import Emis.Posts.Addresses
import Emis.Billing.TypedMoney
import Emis.Library.Machines
import Emis.Library.Xml
import Emis.PublicSite.TtlCache
import Emis.PublicSite.SingleFlight
import Emis.PublicSite.Staleness
import Emis.PublicSite.Rss
import Emis.PublicSite.FeedText
import Emis.PublicSite.WellFormedFeed
import Emis.PublicSite.CleanText
import Emis.PublicSite.ReadableFeed
import Emis.Identity.PasswordService
import Emis.Identity.ResetLinks
import Emis.Identity.NewestLink
import Emis.Identity.AuthService
import Emis.Library.Unfailing
import Emis.Identity.Lockout
import Emis.Identity.MfaService
import Emis.Identity.MfaCalls
import Emis.Identity.MfaTurns
import Emis.Identity.AcceptedSteps
import Emis.Identity.SingleUse
import Emis.Access.InvitedOnce
import Emis.Access.SessionLimits
import Emis.Catalog.Prerequisites
import Emis.Catalog.CoursesService
import Emis.Catalog.Acyclic
import Emis.Imports.Csv
import Emis.Imports.Lines
import Emis.Imports.Rows
import Emis.Imports.PersonSchema
import Emis.Imports.StudentImportService
import Emis.Imports.Registrations
import Emis.Imports.Branches
import Emis.Imports.Storing
import Emis.Imports.Inserted
import Emis.Imports.OneBadRow
import Emis.Imports.Previewed
import Emis.Reminders.FeeRemindersService
import Emis.Reminders.SentOnce
import Emis.Reminders.StagesAdvance
import Emis.Common.JsonParse
import Emis.Common.SecretBox
import Emis.Messaging.OutboxService
import Emis.Messaging.Received
import Emis.Messaging.Delivery
import Emis.Messaging.ExactlyOnce
import Emis.Reports.Csv
import Emis.Reports.CsvRoundTrip
import Emis.Billing.FeesService
import Emis.Billing.DefaultPlan
import Emis.Library.Markup
import Emis.Documents.Html
import Emis.Documents.Templates
import Emis.Documents.Separated
import Emis.Documents.Schema
import Emis.Documents.StudentCardsService
import Emis.Documents.Reissued
import Emis.Documents.CertificatesService
import Emis.Documents.Certified
import Emis.Documents.DatesShown
import Emis.Library.Joins
import Emis.Library.Waterfall
import Emis.Billing.PaymentOrder
import Emis.Billing.DiscountOrder
import Emis.Billing.Instalments
import Emis.Reports.Schema
import Emis.Reports.Range
import Emis.Reports.ReportsService
import Emis.Reports.AgedDebt
import Emis.Reports.Revenue
import Emis.Identity.Lockout
import Emis.Identity.MfaService
import Emis.Identity.MfaCalls
import Emis.Identity.MfaTurns
import Emis.Identity.AcceptedSteps
import Emis.Identity.SingleUse
import Emis.Library.Trees
import Emis.Library.Utf8
import Emis.Library.Url
import Emis.Common.JsString
import Emis.Common.JsNumber
import Emis.Common.CanonicalValue
import Emis.Portal.Redirects
import Emis.Settings.Switches
import Emis.Settings.ActiveBranch
import Emis.Settings.NoLostUpdate
import Emis.Settings.Definitions
import Emis.Settings.FirstRun
