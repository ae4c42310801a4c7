import PcCourse.Transition
import PcCourse.Decimal
import PcCourse.Database
import PcCourse.Grouping
import PcCourse.Procedures
import PcCourse.Integrity
import PcCourse.StockLedger
import PcCourse.Scanner
import PcCourse.SqlText
import PcCourse.UserRequest
import PcCourse.Access
import PcCourse.Authentication
import PcCourse.ClientFraming
import PcCourse.ConcurrentCompletion
import PcCourse.FalseSuccess
import PcCourse.OrderPlacement
import PcCourse.Atomicity
import PcCourse.Privilege
import PcCourse.Engine
import PcCourse.LuaValue
import PcCourse.Serialize
import PcCourse.LuaText
import PcCourse.LuaChunk
import PcCourse.RoundTrip
import PcCourse.ClientRequests
import PcCourse.Connection
import PcCourse.ServerFraming
import PcCourse.TimerRounds
import PcCourse.ServerSafety
import PcCourse.Listings
import PcCourse.DecimalText
import PcCourse.SalesReports
import PcCourse.LoginWindow
import PcCourse.Deferred
import PcCourse.UsersModel
import PcCourse.Handling
import PcCourse.OrderFinality
import PcCourse.StoredValues
import PcCourse.RowConversion
import PcCourse.NumberCalls
import PcCourse.CheckReading
import PcCourse.OpenListings
import PcCourse.Confidentiality
import PcCourse.RowSignals
import PcCourse.RemoteRows
import PcCourse.ListRefresh
import PcCourse.RowRemoval
import PcCourse.RequestText
import PcCourse.ExpiredOrders
import PcCourse.ListingTexts
import PcCourse.MoneyReports
import PcCourse.LineBreaks
import PcCourse.StoredText
import PcCourse.SentStrings
import PcCourse.PastedText
import PcCourse.ErrorTexts
import PcCourse.ChunkStrings
import PcCourse.ClientText
import PcCourse.OrderedQuantities
import PcCourse.SingleValues
import PcCourse.StartUp
import PcCourse.ServedRequests
import PcCourse.ClientExchange
import PcCourse.ServedDatabase
import PcCourse.RowIdentity
import PcCourse.StatementRule
import PcCourse.ClosedPeriods
import PcCourse.RemoteCalls
import PcCourse.RemoteTables
import PcCourse.RemoteLogin
import PcCourse.OpenedPanels
import PcCourse.Provenance
import PcCourse.AccountDescent
import PcCourse.RemoteUsers
import PcCourse.AdminPanel
import PcCourse.AnsweredCustomers
import PcCourse.RemoteCustomers
import PcCourse.UsersAgree
