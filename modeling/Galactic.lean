import Galactic.Activator.Crash
import Galactic.Claim.Exclusion
import Galactic.CniBgp.Unique
import Galactic.Cniipam.Undo
import Galactic.EgressRoute.Local
import Galactic.Evpn.Announce
import Galactic.Evpn.Backfill
import Galactic.FabricGateway.Fairness
import Galactic.Gateway.Convergence
import Galactic.Gateway.Owned
import Galactic.Gc.Sampling
import Galactic.Ipam.Disjoint
import Galactic.Limit.Attempts
import Galactic.Limit.Budget
import Galactic.Masque.Allocation
import Galactic.Masque.Fence
import Galactic.Natprog.Ports
import Galactic.Nptv6.Neutral
import Galactic.Ownership.Fencing
import Galactic.Rollout.Order
import Galactic.Rollout.Revocation
import Galactic.RouteIndex.Answers
import Galactic.RuleBackends.Owners
import Galactic.ServicePlan.Coverage
import Galactic.ServicePlan.Expiry
import Galactic.ServicePlan.Joining
import Galactic.ShardGroup.PinSafety
import Galactic.ShardGroup.Placement
import Galactic.TrafficPolicy.Counters
import Galactic.TrafficPolicy.DatapathCorrect
import Galactic.Vrf.Run
