import Usdy.Theorems.Acceptance
import Usdy.Theorems.Aggregated
import Usdy.Theorems.AmountLimits
import Usdy.Theorems.ComparisonStuck
import Usdy.Theorems.Conversions
import Usdy.Theorems.Factories
import Usdy.Theorems.Frozen
import Usdy.Theorems.Idle
import Usdy.Theorems.LatestPrice
import Usdy.Theorems.Liveness
import Usdy.Theorems.Members
import Usdy.Theorems.Minima
import Usdy.Theorems.Nesting
import Usdy.Theorems.Outsiders
import Usdy.Theorems.Ownership
import Usdy.Theorems.PriceBand
import Usdy.Theorems.PriceBook
import Usdy.Theorems.PriceIds
import Usdy.Theorems.RedemptionBatches
import Usdy.Theorems.Reentry
import Usdy.Theorems.RateRange
import Usdy.Theorems.Regroup
import Usdy.Theorems.Replay
import Usdy.Theorems.Revoked
import Usdy.Theorems.Settings
import Usdy.Theorems.Solvency
import Usdy.Theorems.Strings
import Usdy.Theorems.Throughput
import Usdy.Theorems.TimeLock
import Usdy.Theorems.TokenSupply
import Usdy.Theorems.Tolerances
import Usdy.Theorems.UsdySolvency
