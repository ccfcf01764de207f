import Dataglot.Server.JwtLogin
import Dataglot.Server.PasswordLogin
import Dataglot.Policy.WhitelistFlow
import Dataglot.Policy.Isolation
import Dataglot.Server.PolicyTarget
import Dataglot.Pgwire.LdapTemplates
import Dataglot.Federation.CommittedVersion
import Dataglot.Federation.OptimisticConcurrency
import Dataglot.Ballista.SplitBrain
import Dataglot.Server.UserAdminRace
import Dataglot.Server.Principals
import Dataglot.Federation.ODataFilter
import Dataglot.Federation.PagedScan
import Dataglot.Policy.RuleScope
import Dataglot.Server.PolicyExplain
import Dataglot.Policy.RulePublication
import Dataglot.Policy.EnforcerOrder
import Dataglot.Server.StartupDatabase
import Dataglot.Server.LineageSnapshot
import Dataglot.Core.LineagePaths
import Dataglot.Server.MaskedColumns
import Dataglot.Policy.TagOrder
import Dataglot.Policy.MaskTermination
import Dataglot.Server.CatalogAdmin
import Dataglot.Server.ViewAdmin
import Dataglot.Catalog.StoreAgreement
import Dataglot.Catalog.RedbTransactions
import Dataglot.Catalog.ProviderCache
import Dataglot.Server.RoleFolding
import Dataglot.Policy.MaskValues
import Dataglot.Pgwire.QueryLife
import Dataglot.Pgwire.CancelRows
import Dataglot.Server.PushdownStats
import Dataglot.Federation.ConnectorRegistry
import Dataglot.Ballista.PlanGuard
import Dataglot.Core.LineageArity
import Dataglot.Server.RateLimit
import Dataglot.Server.ConnectionLimits
import Dataglot.Server.DataHub
import Dataglot.Ballista.LeadershipLost
import Dataglot.Ballista.LogicalCodec
